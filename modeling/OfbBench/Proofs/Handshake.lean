import OfbBench.OpensslTls

/-!
# The handshake driver

A run of the loop of `tls_pair_create` is a list of rounds: each steps the client and then the
server, unless they have finished or the client failed (`RoundAt`). The rounds end with the first
one in which a step fails, with the first one after which both sides have finished, or with the last
attempt (`handshakeLoop_rounds`); the loop returns 0 in the second case only.
-/

namespace OfbBench.Tls

/-- What `SSL_do_handshake` and, unless that is 1, `SSL_get_error` return. -/
structure Step where
  result : Int
  error : Int
  deriving DecidableEq, Repr

def Step.succeeds (step : Step) : Bool := step.result = 1

/-- The step ends in an error other than a wish to read or to write. -/
def Step.fails (step : Step) : Bool :=
  step.result ≠ 1 ∧ step.error ≠ errorWantRead ∧ step.error ≠ errorWantWrite

def Step.trace (ssl : Option Ptr) (step : Step) : Trace Ssl :=
  if step.result = 1 then [⟨.doHandshake ssl, step.result⟩]
  else [⟨.doHandshake ssl, step.result⟩, ⟨.getError ssl step.result, step.error⟩]

/-- The steps of a round, `none` for a side that is not stepped. -/
structure Round where
  client : Option Step
  server : Option Step
  deriving DecidableEq, Repr

def Round.trace (pair : TlsPair) (round : Round) : Trace Ssl :=
  round.client.elim [] (Step.trace pair.client) ++ round.server.elim [] (Step.trace pair.server)

def Round.fails (round : Round) : Bool :=
  round.client.any Step.fails || round.server.any Step.fails

/-- The client has reported success in one of the rounds. -/
def clientDone (rounds : List Round) : Bool :=
  rounds.any fun round => round.client.any Step.succeeds

/-- The server has reported success in one of the rounds. -/
def serverDone (rounds : List Round) : Bool :=
  rounds.any fun round => round.server.any Step.succeeds

/-- Both sides have reported success and no step has failed. -/
def Connected (rounds : List Round) : Prop :=
  clientDone rounds ∧ serverDone rounds ∧ ∀ round ∈ rounds, round.fails = false

/-- A round after `before` leaves out exactly the sides that have finished, and the server after an
error of the client. It is only made if nothing has failed and one of the sides has not finished. -/
structure RoundAt (before : List Round) (round : Round) : Prop where
  client : round.client = none ↔ clientDone before
  server : round.server = none ↔ serverDone before ∨ round.client.any Step.fails
  sound : ∀ earlier ∈ before, earlier.fails = false
  unfinished : ¬ (clientDone before ∧ serverDone before)

/-- What `tls_pair_destroy` calls. -/
def destroyTrace (pair : TlsPair) : Trace Ssl :=
  [⟨.sslFree pair.client, ()⟩, ⟨.sslFree pair.server, ()⟩]

/-- The rounds follow one another, after those of `past`. -/
def Scheduled (past rounds : List Round) : Prop :=
  ∀ before round after, rounds = before ++ round :: after → RoundAt (past ++ before) round

/-- How the loop ends that made `rounds` after those of `past`: both sides have connected, or it
destroys the pair, because a step failed or because no attempt is left. -/
def EndsIn (pair : TlsPair) (attempts : ℕ) (past rounds : List Round) (closing : Trace Ssl)
    (out : Int × TlsPair) : Prop :=
  (out = (0, pair) ∧ closing = [] ∧ Connected (past ++ rounds))
    ∨ (out = (-1, .null) ∧ closing = destroyTrace pair ∧ ¬ Connected (past ++ rounds)
      ∧ ((∃ round ∈ rounds, round.fails) ∨ rounds.length = attempts))

section Rounds

variable {pair : TlsPair} {t : Trace Ssl} {rc : Int}

theorem runs_sslDoHandshake_bind {β : Type} {ssl : Option Ptr} {f : Int → Prog Ssl β} {b : β} :
    (sslDoHandshake ssl >>= f).Runs t b ↔
      ∃ r t', t = ⟨.doHandshake ssl, r⟩ :: t' ∧ (f r).Runs t' b := Iff.rfl

theorem runs_sslGetError_bind {β : Type} {ssl : Option Ptr} {result : Int} {f : Int → Prog Ssl β}
    {b : β} : (sslGetError ssl result >>= f).Runs t b ↔
      ∃ r t', t = ⟨.getError ssl result, r⟩ :: t' ∧ (f r).Runs t' b := Iff.rfl

/-- A step is left out when the side has finished. -/
theorem runs_handshakeStep {ssl : Option Ptr} {finished finished' : Bool}
    (h : (handshakeStep ssl finished).Runs t (rc, finished')) :
    ∃ step : Option Step, t = step.elim [] (Step.trace ssl) ∧ (step = none ↔ finished)
      ∧ finished' = (finished || step.any Step.succeeds)
      ∧ rc = if step.any Step.fails then -1 else 0 := by
  unfold handshakeStep at h
  cases finished with
  | true =>
    obtain ⟨rfl, h⟩ := h
    obtain ⟨rfl, rfl⟩ := Prod.mk.inj h
    exact ⟨none, rfl, by simp, rfl, rfl⟩
  | false =>
    rw [if_neg (by simp), runs_sslDoHandshake_bind] at h
    obtain ⟨result, t₁, rfl, h⟩ := h
    split_ifs at h with h1
    · obtain ⟨rfl, h⟩ := h
      obtain ⟨rfl, rfl⟩ := Prod.mk.inj h
      subst h1
      exact ⟨some ⟨1, 0⟩, rfl, by simp, rfl, rfl⟩
    rw [runs_sslGetError_bind] at h
    obtain ⟨error, t₂, rfl, h⟩ := h
    have htrace : Step.trace ssl ⟨result, error⟩
        = [⟨.doHandshake ssl, result⟩, ⟨.getError ssl result, error⟩] := if_neg h1
    have hsucceeds : Step.succeeds ⟨result, error⟩ = false := decide_eq_false h1
    split_ifs at h with herr
    · obtain ⟨rfl, h⟩ := h
      obtain ⟨rfl, rfl⟩ := Prod.mk.inj h
      have hfails : Step.fails ⟨result, error⟩ = true := decide_eq_true ⟨h1, herr⟩
      refine ⟨some ⟨result, error⟩, htrace.symm, by simp, ?_, ?_⟩
      · rw [Option.any_some, hsucceeds, Bool.or_false]
      · rw [Option.any_some, hfails, if_pos rfl]
    · obtain ⟨rfl, h⟩ := h
      obtain ⟨rfl, rfl⟩ := Prod.mk.inj h
      have hfails : Step.fails ⟨result, error⟩ = false := decide_eq_false fun h' => herr h'.2
      refine ⟨some ⟨result, error⟩, htrace.symm, by simp, ?_, ?_⟩
      · rw [Option.any_some, hsucceeds, Bool.or_false]
      · rw [Option.any_some, hfails, if_neg (by simp)]

theorem scheduled_nil (past : List Round) : Scheduled past [] := by
  intro before round after h
  simp at h

theorem scheduled_cons {past rounds : List Round} {round : Round} (h : RoundAt past round)
    (hs : Scheduled (past ++ [round]) rounds) : Scheduled past (round :: rounds) := by
  intro before round' after heq
  rcases before with _ | ⟨first, before⟩
  · obtain ⟨rfl, -⟩ := List.cons.inj heq
    rw [List.append_nil]
    exact h
  · obtain ⟨rfl, htail⟩ := List.cons.inj heq
    rw [List.append_cons]
    exact hs before round' after htail

theorem clientDone_concat (past : List Round) (round : Round) :
    clientDone (past ++ [round]) = (clientDone past || round.client.any Step.succeeds) := by
  unfold clientDone
  rw [List.any_append, List.any_cons, List.any_nil, Bool.or_false]

theorem serverDone_concat (past : List Round) (round : Round) :
    serverDone (past ++ [round]) = (serverDone past || round.server.any Step.succeeds) := by
  unfold serverDone
  rw [List.any_append, List.any_cons, List.any_nil, Bool.or_false]

theorem runs_tlsPairDestroy {pair' : TlsPair} (h : (tlsPairDestroy pair).Runs t pair') :
    t = destroyTrace pair ∧ pair' = .null := by
  obtain ⟨_, _, rfl, _, _, rfl, rfl, rfl⟩ := h
  exact ⟨rfl, rfl⟩

/-- A round in which a step fails ends the loop. -/
theorem endsIn_failed {attempts : ℕ} {past : List Round} {round : Round} {out : Int × TlsPair}
    (hfails : round.fails = true)
    (h : (tlsPairDestroy pair >>= fun pair => pure (-1, pair)).Runs t out) :
    EndsIn pair attempts past [round] t out := by
  obtain ⟨t₁, t₂, pair', rfl, h₁, rfl, rfl⟩ := Prog.runs_bind.1 h
  obtain ⟨rfl, rfl⟩ := runs_tlsPairDestroy h₁
  refine .inr ⟨rfl, List.append_nil _, fun hc => ?_, .inl ⟨round, by simp, hfails⟩⟩
  exact Bool.false_ne_true ((hc.2.2 round (by simp)).symm.trans hfails)

theorem EndsIn.cons {attempts : ℕ} {past rounds : List Round} {round : Round}
    {closing : Trace Ssl} {out : Int × TlsPair}
    (h : EndsIn pair attempts (past ++ [round]) rounds closing out) :
    EndsIn pair (attempts + 1) past (round :: rounds) closing out := by
  unfold EndsIn at h ⊢
  rw [List.append_assoc, List.singleton_append] at h
  rcases h with h | ⟨hout, hclosing, hc, ⟨r, hr, hf⟩ | hlen⟩
  · exact .inl h
  · exact .inr ⟨hout, hclosing, hc, .inl ⟨r, List.mem_cons_of_mem _ hr, hf⟩⟩
  · refine .inr ⟨hout, hclosing, hc, .inr ?_⟩
    rw [List.length_cons, hlen]

/-- An attempt is a round, after which the loop gives up, is done or goes on. -/
theorem runs_handshakeLoop_succ {attempts : ℕ} {past : List Round} {out : Int × TlsPair}
    (hsound : ∀ earlier ∈ past, earlier.fails = false)
    (hun : ¬ (clientDone past ∧ serverDone past))
    (h : (handshakeLoop pair (attempts + 1) (clientDone past) (serverDone past)).Runs t out) :
    ∃ round t', t = round.trace pair ++ t' ∧ RoundAt past round
      ∧ ((round.fails = true ∧ (tlsPairDestroy pair >>= fun pair => pure (-1, pair)).Runs t' out)
        ∨ (round.fails = false ∧ ((clientDone (past ++ [round]) ∧ serverDone (past ++ [round]))
            ∧ t' = [] ∧ out = (0, pair)
          ∨ ¬ (clientDone (past ++ [round]) ∧ serverDone (past ++ [round]))
            ∧ (handshakeLoop pair attempts (clientDone (past ++ [round]))
              (serverDone (past ++ [round]))).Runs t' out))) := by
  rw [handshakeLoop, Prog.runs_bind] at h
  obtain ⟨t₁, t₂, ⟨rc, clientFinished⟩, rfl, h₁, h₂⟩ := h
  obtain ⟨client, rfl, hclient, rfl, rfl⟩ := runs_handshakeStep h₁
  simp only [] at h₂
  by_cases hcf : client.any Step.fails
  · -- the server is not stepped
    rw [if_pos hcf, if_pos (by decide)] at h₂
    refine ⟨⟨client, none⟩, t₂, ?_, ⟨hclient, by simp [hcf], hsound, hun⟩, .inl ⟨?_, h₂⟩⟩
    · simp [Round.trace]
    · simp [Round.fails, hcf]
  rw [if_neg hcf, if_neg (by decide), Prog.runs_bind] at h₂
  obtain ⟨t₂, t₃, ⟨rc, serverFinished⟩, rfl, h₂, h₃⟩ := h₂
  obtain ⟨server, rfl, hserver, rfl, rfl⟩ := runs_handshakeStep h₂
  simp only [] at h₃
  refine ⟨⟨client, server⟩, t₃, (List.append_assoc _ _ _).symm, ⟨hclient, ?_, hsound, hun⟩, ?_⟩
  · rw [hserver, or_iff_left (by simpa using hcf)]
  by_cases hsf : server.any Step.fails
  · rw [if_pos hsf, if_pos (by decide)] at h₃
    exact .inl ⟨by simp [Round.fails, hsf], h₃⟩
  rw [if_neg hsf, if_neg (by decide), ← clientDone_concat past ⟨client, server⟩,
    ← serverDone_concat past ⟨client, server⟩] at h₃
  refine .inr ⟨by simp [Round.fails, hcf, hsf], ?_⟩
  split_ifs at h₃ with hdone
  · exact .inl ⟨hdone, h₃⟩
  · exact .inr ⟨hdone, h₃⟩

/-- Every run of the loop is a list of rounds, and ends for one of three reasons. -/
theorem handshakeLoop_rounds {attempts : ℕ} {past : List Round} {out : Int × TlsPair}
    (hsound : ∀ earlier ∈ past, earlier.fails = false)
    (hun : ¬ (clientDone past ∧ serverDone past))
    (h : (handshakeLoop pair attempts (clientDone past) (serverDone past)).Runs t out) :
    ∃ rounds closing, t = rounds.flatMap (Round.trace pair) ++ closing
      ∧ rounds.length ≤ attempts ∧ Scheduled past rounds
      ∧ EndsIn pair attempts past rounds closing out := by
  induction attempts generalizing past t with
  | zero =>
    obtain ⟨t₁, t₂, pair', rfl, h₁, rfl, rfl⟩ := Prog.runs_bind.1 h
    obtain ⟨rfl, rfl⟩ := runs_tlsPairDestroy h₁
    refine ⟨[], destroyTrace pair, List.append_nil _, le_rfl, scheduled_nil past,
      .inr ⟨rfl, rfl, fun hc => ?_, .inr rfl⟩⟩
    rw [List.append_nil] at hc
    exact hun ⟨hc.1, hc.2.1⟩
  | succ attempts ih =>
    obtain ⟨round, t', rfl, hround, h⟩ := runs_handshakeLoop_succ hsound hun h
    have hone : Scheduled past [round] := scheduled_cons hround (scheduled_nil _)
    rcases h with ⟨hfails, h⟩ | ⟨hfails, h⟩
    · refine ⟨[round], t', ?_, by simp, hone, endsIn_failed hfails h⟩
      rw [List.flatMap_singleton]
    have hsound' : ∀ earlier ∈ past ++ [round], earlier.fails = false := by
      intro earlier he
      rcases List.mem_append.1 he with he | he
      · exact hsound earlier he
      · rw [List.mem_singleton.1 he]
        exact hfails
    rcases h with ⟨hdone, rfl, rfl⟩ | ⟨hdone, h⟩
    · refine ⟨[round], [], ?_, by simp, hone, .inl ⟨rfl, rfl, hdone.1, hdone.2, hsound'⟩⟩
      rw [List.flatMap_singleton]
    · obtain ⟨rounds, closing, rfl, hlen, hs, hend⟩ := ih hsound' hdone h
      refine ⟨round :: rounds, closing, ?_, ?_, scheduled_cons hround hs, hend.cons⟩
      · rw [List.flatMap_cons, List.append_assoc]
      · rw [List.length_cons]
        omega

/-- The loop stops as soon as both sides have connected. -/
theorem take_eq_of_connected {rounds : List Round} {r : ℕ} (hs : Scheduled [] rounds)
    (hc : Connected (rounds.take (r + 1))) :
    rounds.take (r + 1) = rounds := by
  rw [List.take_eq_self_iff]
  by_contra hlt
  have hsplit : rounds = rounds.take (r + 1) ++ rounds[r + 1] :: rounds.drop (r + 1 + 1) := by
    rw [List.getElem_cons_drop, List.take_append_drop]
  have hat := hs _ _ _ hsplit
  rw [List.nil_append] at hat
  exact hat.unfinished ⟨hc.1, hc.2.1⟩

theorem connected_iff_take {rounds : List Round} (hs : Scheduled [] rounds) :
    Connected rounds ↔ ∃ r < rounds.length, Connected (rounds.take (r + 1)) := by
  constructor
  · intro hc
    have hpos : 0 < rounds.length := by
      rw [List.length_pos_iff]
      rintro rfl
      exact Bool.false_ne_true hc.1
    refine ⟨rounds.length - 1, by omega, ?_⟩
    rw [Nat.sub_add_cancel hpos, List.take_length]
    exact hc
  · rintro ⟨r, -, hc⟩
    rwa [take_eq_of_connected hs hc] at hc

end Rounds

/-- The calls of `tls_pair_create` before its loop, when it gets two connections and two BIOs. -/
def openingTrace (clientCtx serverCtx : Option Ptr) (client server clientBio serverBio : Ptr) :
    Trace Ssl :=
  [⟨.sslNew clientCtx, some client⟩, ⟨.sslNew serverCtx, some server⟩,
    ⟨.newBioPair, some (clientBio, serverBio)⟩, ⟨.setBio (some client) clientBio clientBio, ()⟩,
    ⟨.setBio (some server) serverBio serverBio, ()⟩, ⟨.setConnectState (some client), ()⟩,
    ⟨.setAcceptState (some server), ()⟩]

/-- `SSL_new` returns the two connections and `BIO_new_bio_pair` succeeds. -/
def Opens (clientCtx serverCtx : Option Ptr) (client server : Ptr) (t : Trace Ssl) : Prop :=
  ∃ clientBio serverBio rest, t = ⟨.sslNew clientCtx, some client⟩
    :: ⟨.sslNew serverCtx, some server⟩ :: ⟨.newBioPair, some (clientBio, serverBio)⟩ :: rest

theorem runs_tlsPairCreate {clientCtx serverCtx : Option Ptr} {client server : Ptr} {t : Trace Ssl}
    {out : Int × TlsPair} (h : (tlsPairCreate clientCtx serverCtx).Runs t out)
    (hopens : Opens clientCtx serverCtx client server t) :
    ∃ clientBio serverBio t',
      t = openingTrace clientCtx serverCtx client server clientBio serverBio ++ t'
        ∧ (handshakeLoop ⟨some client, some server⟩ 10000 false false).Runs t' out := by
  obtain ⟨clientBio, serverBio, rest, rfl⟩ := hopens
  have h₁ := Prog.runs_call_cons.1 h
  have h₂ := Prog.runs_call_cons.1 h₁
  have h₃ := Prog.runs_call_cons.1 h₂
  obtain ⟨_, _, rfl, _, _, rfl, _, _, rfl, _, t', rfl, h₄⟩ := h₃
  exact ⟨clientBio, serverBio, t', rfl, h₄⟩

/-- Whatever the handshakes return, `tls_pair_create` goes through at most 10000 rounds, each as
`RoundAt` says. It returns 0 when after one of them both sides have reported success and no step has
failed; otherwise a step has failed or there were 10000 rounds, it returns -1 and the pair is NULL.
-/
theorem tlsPairCreate_driver (clientCtx serverCtx : Option Ptr) (client server : Ptr)
    (t : Trace Ssl) (rc : Int) (pair : TlsPair)
    (h : (tlsPairCreate clientCtx serverCtx).Runs t (rc, pair))
    (hopens : Opens clientCtx serverCtx client server t) :
    ∃ clientBio serverBio closing, ∃ rounds : List Round,
      t = openingTrace clientCtx serverCtx client server clientBio serverBio
          ++ rounds.flatMap (Round.trace ⟨some client, some server⟩) ++ closing
        ∧ (∀ before round after, rounds = before ++ round :: after → RoundAt before round)
        ∧ rounds.length ≤ 10000
        ∧ (rounds.filterMap Round.client).length ≤ 10000
        ∧ (rounds.filterMap Round.server).length ≤ 10000
        ∧ (rc = 0 ↔ ∃ r < 10000, r < rounds.length ∧ Connected (rounds.take (r + 1)))
        ∧ (rc = 0 → pair = ⟨some client, some server⟩ ∧ closing = [])
        ∧ (rc ≠ 0 → rc = -1 ∧ pair = .null ∧ closing = destroyTrace ⟨some client, some server⟩
          ∧ ((∃ round ∈ rounds, round.fails) ∨ rounds.length = 10000)) := by
  obtain ⟨clientBio, serverBio, t', rfl, hloop⟩ := runs_tlsPairCreate h hopens
  obtain ⟨rounds, closing, rfl, hlen, hs, hend⟩ :=
    @handshakeLoop_rounds ⟨some client, some server⟩ t' 10000 [] (rc, pair) (by simp)
      (by simp [clientDone]) hloop
  have hrc : rc = 0 ↔ Connected rounds := by
    rcases hend with ⟨hout, -, hc⟩ | ⟨hout, -, hc, -⟩
    · exact iff_of_true (Prod.mk.inj hout).1 hc
    · exact iff_of_false (by rw [(Prod.mk.inj hout).1]; decide) hc
  refine ⟨clientBio, serverBio, closing, rounds, (List.append_assoc _ _ _).symm, hs, hlen,
    (List.length_filterMap_le _ _).trans hlen, (List.length_filterMap_le _ _).trans hlen,
    ?_, ?_, ?_⟩
  · rw [hrc, connected_iff_take hs]
    constructor
    · rintro ⟨r, hr, hc⟩
      exact ⟨r, hr.trans_le hlen, hr, hc⟩
    · rintro ⟨r, -, hr, hc⟩
      exact ⟨r, hr, hc⟩
  · intro h0
    rcases hend with ⟨hout, hclosing, -⟩ | ⟨hout, -⟩
    · exact ⟨(Prod.mk.inj hout).2, hclosing⟩
    · rw [(Prod.mk.inj hout).1] at h0
      exact absurd h0 (by decide)
  · intro hne
    rcases hend with ⟨hout, -⟩ | ⟨hout, hclosing, -, hwhy⟩
    · exact absurd (Prod.mk.inj hout).1 hne
    · exact ⟨(Prod.mk.inj hout).1, (Prod.mk.inj hout).2, hclosing, hwhy⟩

/-- The client wants to read first, the server finishes at once. -/
def twoRounds : List Round :=
  [⟨some ⟨-1, errorWantRead⟩, some ⟨1, 0⟩⟩, ⟨some ⟨1, 0⟩, none⟩]

def twoRoundsTrace : Trace Ssl :=
  openingTrace (some 1) (some 2) 3 4 5 6 ++ twoRounds.flatMap (Round.trace ⟨some 3, some 4⟩)

theorem runs_twoRoundsTrace :
    (tlsPairCreate (some 1) (some 2)).Runs twoRoundsTrace (0, ⟨some 3, some 4⟩) :=
  ⟨some 3, _, rfl, some 4, _, rfl, some (5, 6), _, rfl, (), _, rfl, (), _, rfl, (), _, rfl,
    (), _, rfl, -1, _, rfl, errorWantRead, _, rfl, 1, _, rfl, 1, _, rfl, rfl, rfl⟩

theorem tlsPairCreate_driver_twoRounds :
    (tlsPairCreate (some 1) (some 2)).Runs twoRoundsTrace (0, ⟨some 3, some 4⟩) ∧
      ∃ rounds : List Round,
        rounds.flatMap (Round.trace ⟨some 3, some 4⟩)
            = twoRounds.flatMap (Round.trace ⟨some 3, some 4⟩)
          ∧ ∃ r < 10000, r < rounds.length ∧ Connected (rounds.take (r + 1)) := by
  obtain ⟨_, _, _, rounds, ht, -, -, -, -, hrc, hzero, -⟩ :=
    tlsPairCreate_driver (some 1) (some 2) 3 4 _ 0 _ runs_twoRoundsTrace ⟨5, 6, _, rfl⟩
  obtain ⟨-, rfl⟩ := hzero rfl
  rw [List.append_nil] at ht
  exact ⟨runs_twoRoundsTrace, rounds, (List.append_inj ht rfl).2.symm, hrc.1 rfl⟩

end OfbBench.Tls
