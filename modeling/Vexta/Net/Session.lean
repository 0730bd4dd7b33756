import Vexta.Net.Served

/-! Sessions of one peer, with and without a transaction in the stem pool. -/
namespace Vexta
open Lib List

variable {X : Crypto}

namespace PeerManager

section turn
variable (E : NetEnv X) {h : Uint256} {e : ℤ} {s : PeerManager X} {p : NodeId} {now : ℤ}

def MessageReveals (h : Uint256) (s : PeerManager X) (p : NodeId) (now : ℤ) (msg : NetMessage) :
    Prop :=
  let s := s.checkDandelionEmbargoes E now
  ∃ vInv, msg = .getData vInv ∧ vInv.length ≤ maxInvSz ∧
    (s.nodes p).fSuccessfullyConnected = true ∧
    LoopReveals h p now ((s.queueGetData p vInv).nodes p).getdataRequests (s.queueGetData p vInv)

variable {msg : NetMessage}

theorem forget_processMessage (chance : Chance) (hmsg : msg.isInventory = true)
    (hembargo : ∀ embargo, s.mDandelionEmbargo.lookup h = some embargo →
      ¬ embargo < milliseconds now) (hrev : ¬ MessageReveals E h s p now msg) :
    (s.forget h).processMessage E p now chance msg =
      forgetFst h <$> s.processMessage E p now chance msg := by
  unfold MessageReveals at hrev
  unfold processMessage
  rw [forget_checkDandelionEmbargoes E h s now hembargo]
  dsimp only at hrev ⊢
  generalize s.checkDandelionEmbargoes E now = s' at hrev ⊢
  rw [forget_nodes]
  by_cases hdone : (s'.nodes p).fSuccessfullyConnected = true
  swap
  · rw [if_pos hdone, if_pos hdone]
    rfl
  rw [if_neg (not_not.mpr hdone), if_neg (not_not.mpr hdone)]
  cases msg with
  | inv vInv => exact forget_processInv E h s' p vInv
  | getData vInv =>
    dsimp only
    by_cases hlen : maxInvSz < vInv.length
    · rw [if_pos hlen, if_pos hlen]
      rfl
    · rw [if_neg hlen, if_neg hlen]
      exact forget_processGetData E fun hrev' =>
        hrev ⟨vInv, rfl, Nat.not_lt.mp hlen, hdone, hrev'⟩
  | _ => cases hmsg

theorem processMessage_reveals (chance : Chance)
    (hembargo : ∀ embargo, s.mDandelionEmbargo.lookup h = some embargo →
      ¬ embargo < milliseconds now) (hstem : (s.stempool.mapTx.lookup h).isSome)
    (hrev : MessageReveals E h s p now msg) :
    ∃ r r', s.processMessage E p now chance msg = .ok r ∧
      (s.forget h).processMessage E p now chance msg = .ok r' ∧ Diverges r.2 r'.2 := by
  obtain ⟨vInv, hmsg, hlen, hdone, hloop⟩ := hrev
  have hstem' := hstem
  have hquiet : Quiet False s _ := (Served.checkDandelionEmbargoes E s now).quiet
  rw [← hquiet.stempool] at hstem'
  unfold processMessage
  rw [forget_checkDandelionEmbargoes E h s now hembargo, hmsg]
  dsimp only
  generalize s.checkDandelionEmbargoes E now = s' at hdone hloop hstem' ⊢
  have hdone' : ¬ ¬ ((s'.forget h).nodes p).fSuccessfullyConnected = true := not_not.mpr hdone
  rw [if_neg (not_not.mpr hdone), if_neg hdone', if_neg (Nat.not_lt.mpr hlen),
    if_neg (Nat.not_lt.mpr hlen)]
  exact processGetData_reveals E hloop hstem'

/-- A turn that answers a request from the stem pool's entry. -/
def Reveals (h : Uint256) (s : PeerManager X) (event : NetEvent X) : Prop :=
  ∃ p now chance, event = .process p now chance ∧
    (LoopReveals h p now (s.nodes p).getdataRequests s ∨
      ∃ s₁ sent msg rest, s.processPending E p now = .ok (s₁, sent) ∧
        (s₁.nodes p).takesMessage = true ∧ (s₁.nodes p).vProcessMsg = msg :: rest ∧
        MessageReveals E h (s₁.modifyNode p fun node => { node with vProcessMsg := rest }) p now msg)

/-- A stem transaction with its embargo; only inventories and requests wait. -/
structure Conceals (h : Uint256) (e : ℤ) (p : NodeId) (s : PeerManager X) : Prop where
  stem : (s.stempool.mapTx.lookup h).isSome
  embargo : ∀ embargo, s.mDandelionEmbargo.lookup h = some embargo → embargo = e
  messages : ∀ msg ∈ (s.nodes p).vProcessMsg, msg.isInventory = true

theorem Conceals.of_quiet {s' : PeerManager X} (hs : Conceals h e p s) (hquiet : Quiet False s s') :
    Conceals h e p s' where
  stem := by
    rw [hquiet.stempool]
    exact hs.stem
  embargo := fun embargo hlookup => hs.embargo embargo (hquiet.embargo h embargo hlookup)
  messages := by
    rw [(hquiet.nodes p).messages]
    exact hs.messages

theorem Conceals.not_expired (hs : Conceals h e p s) (hnow : now < e) (embargo : ℤ)
    (hlookup : s.mDandelionEmbargo.lookup h = some embargo) : ¬ embargo < milliseconds now := by
  rw [hs.embargo embargo hlookup]
  unfold milliseconds
  have hdiv := Int.ediv_mul_le now (show (1000 : ℤ) ≠ 0 by decide)
  omega

theorem Conceals.pop {rest : List NetMessage} (hs : Conceals h e p s)
    (hmsgs : (s.nodes p).vProcessMsg = msg :: rest) :
    Conceals h e p (s.modifyNode p fun node => { node with vProcessMsg := rest }) where
  stem := hs.stem
  embargo := hs.embargo
  messages := by
    intro msg' hmem
    rw [modifyNode_self] at hmem
    apply hs.messages
    rw [hmsgs]
    exact mem_cons_of_mem _ hmem

theorem forget_processMessages (hs : Conceals h e p s) (hnow : now < e) (chance : Chance)
    (hrev : ¬ Reveals E h s (.process p now chance)) :
    (s.forget h).processMessages E p now chance =
      forgetFst h <$> s.processMessages E p now chance := by
  have hloop : ¬ LoopReveals h p now (s.nodes p).getdataRequests s :=
    fun hloop => hrev ⟨p, now, chance, rfl, Or.inl hloop⟩
  obtain ⟨⟨s₁, sent⟩, hpending⟩ := s.processPending_ok E p now
  have hs₁ := hs.of_quiet (Served.processPending hpending).quiet
  unfold processMessages
  rw [forget_processPending E hloop, hpending]
  change (if ((s₁.forget h).nodes p).takesMessage then _ else _) =
    forgetFst h <$> (if (s₁.nodes p).takesMessage then _ else _)
  rw [forget_nodes]
  by_cases htakes : (s₁.nodes p).takesMessage = true
  swap
  · rw [if_neg htakes, if_neg htakes]
    rfl
  rw [if_pos htakes, if_pos htakes]
  cases hmsgs : (s₁.nodes p).vProcessMsg with
  | nil => rfl
  | cons msg rest =>
    have hs₂ := hs₁.pop hmsgs
    have hmsg : msg.isInventory = true := hs₁.messages msg (by rw [hmsgs]; exact mem_cons_self)
    have hrev' : ¬ MessageReveals E h
        (s₁.modifyNode p fun node => { node with vProcessMsg := rest }) p now msg :=
      fun hrev' => hrev ⟨p, now, chance, rfl, .inr ⟨s₁, sent, msg, rest, hpending, htakes, hmsgs, hrev'⟩⟩
    dsimp only
    rw [forget_modifyNode, forget_processMessage E chance hmsg (hs₂.not_expired hnow) hrev']
    generalize PeerManager.processMessage E _ p now chance msg = r
    cases r <;> rfl

theorem not_followsNull (hconn : (s.nodes p).connType ≠ .blockRelay) (now : ℤ) (chance : Chance) :
    ¬ FollowsNull E s (.process p now chance) := by
  rintro ⟨p', now', chance', s₁, sent, msg, rest, hevent, hpending, -, -, hnull⟩
  cases hevent
  have hsame := ((Served.processPending hpending).quiet : Quiet False s s₁).nodes p |>.connType
  cases msg with
  | inv vInv =>
    rw [← hsame] at hconn
    simp [followsNull, hconn] at hnull
  | _ => cases hnull

theorem processMessages_sent {chance : Chance} {r r' : PeerManager X × List Sent}
    (hpending : s.processPending E p now = .ok r) (hall : s.processMessages E p now chance = .ok r') :
    ∃ more, r'.2 = r.2 ++ more := by
  unfold processMessages at hall
  rw [hpending, ok_bind] at hall
  dsimp only at hall
  split_ifs at hall
  · cases hmsgs : (r.1.nodes p).vProcessMsg with
    | nil =>
      rw [hmsgs] at hall
      cases hall
      exact ⟨[], (append_nil _).symm⟩
    | cons msg rest =>
      rw [hmsgs] at hall
      obtain ⟨r₁, -, hend⟩ := bind_eq_ok.mp hall
      cases hend
      exact ⟨r₁.2, rfl⟩
  · cases hall
    exact ⟨[], (append_nil _).symm⟩

theorem processMessages_reveals (hs : Conceals h e p s) (hnow : now < e) (chance : Chance)
    (hrev : Reveals E h s (.process p now chance)) :
    ∃ r r', s.processMessages E p now chance = .ok r ∧
      (s.forget h).processMessages E p now chance = .ok r' ∧ Diverges r.2 r'.2 := by
  obtain ⟨p', now', chance', hevent, hrev⟩ := hrev
  cases hevent
  by_cases hloop : LoopReveals h p now (s.nodes p).getdataRequests s
  · have hconn : (s.nodes p).connType ≠ .blockRelay := by
      intro hconn
      have hsome := hloop.isSome
      rw [Option.isNone_iff_eq_none.mp ((s.nodes p).txRelay_iff.mpr hconn)] at hsome
      cases hsome
    have hconn' : ((s.forget h).nodes p).connType ≠ .blockRelay := hconn
    obtain ⟨r, r', hpending, hpending', hdiv⟩ := processPending_reveals E hloop hs.stem
    obtain ⟨t, ht⟩ := (s.processMessages_ok_iff E p now chance).mpr (not_followsNull E hconn now chance)
    obtain ⟨t', ht'⟩ := ((s.forget h).processMessages_ok_iff E p now chance).mpr
      (not_followsNull E hconn' now chance)
    obtain ⟨more, hmore⟩ := processMessages_sent E hpending ht
    obtain ⟨more', hmore'⟩ := processMessages_sent E hpending' ht'
    refine ⟨t, t', ht, ht', ?_⟩
    rw [hmore, hmore']
    exact hdiv.append more more'
  · obtain ⟨s₁, sent, msg, rest, hpending, htakes, hmsgs, hmessage⟩ := hrev.resolve_left hloop
    have hs₂ := (hs.of_quiet (Served.processPending hpending).quiet).pop hmsgs
    obtain ⟨r, r', hr, hr', hdiv⟩ :=
      processMessage_reveals E chance (hs₂.not_expired hnow) hs₂.stem hmessage
    have hpending' := forget_processPending E hloop
    rw [hpending] at hpending'
    have htakes' : ((s₁.forget h).nodes p).takesMessage = true := htakes
    have hmsgs' : ((s₁.forget h).nodes p).vProcessMsg = msg :: rest := hmsgs
    refine ⟨(r.1, sent ++ r.2), (r'.1, sent ++ r'.2), ?_, ?_, hdiv.append_left sent⟩
    · unfold processMessages
      rw [hpending, ok_bind]
      dsimp only
      rw [if_pos htakes, hmsgs]
      dsimp only
      rw [hr]
      rfl
    · unfold processMessages
      rw [hpending']
      change (if ((s₁.forget h).nodes p).takesMessage then _ else _) = _
      rw [if_pos htakes', hmsgs']
      dsimp only
      rw [forget_modifyNode, hr']
      rfl

end turn

def replies (E : NetEnv X) (s : PeerManager X) : List (NetEvent X) → List Sent
  | [] => []
  | event :: events =>
    match s.step E event with
    | .ok (s, sent) => sent ++ replies E s events
    | .error _ => []

def InSession (p : NodeId) (e : ℤ) : NetEvent X → Prop
  | .receive q msg => q = p ∧ msg.isInventory = true
  | .process q now _ => q = p ∧ now < e
  | .pauseSend q _ => q = p
  | _ => False

section session
variable {E : NetEnv X} {h : Uint256} {e : ℤ} {s : PeerManager X} {p : NodeId}

variable {event : NetEvent X}

theorem Conceals.step (hs : Conceals h e p s) (hevent : InSession p e event) {s' : PeerManager X}
    {sent : List Sent} (hstep : s.step E event = .ok (s', sent)) : Conceals h e p s' := by
  cases event with
  | receive q msg =>
    obtain ⟨hq, hmsg⟩ := hevent
    cases hstep
    refine ⟨hs.stem, hs.embargo, ?_⟩
    intro msg' hmem
    rw [hq, modifyNode_self] at hmem
    rcases mem_append.mp hmem with hmem | hmem
    · exact hs.messages msg' hmem
    · rw [mem_singleton.mp hmem]
      exact hmsg
  | pauseSend q fPauseSend =>
    cases hstep
    exact hs.of_quiet (.modifyNode s q fun _ => .of_txRelay rfl rfl rfl)
  | process q now chance =>
    obtain ⟨rfl, hnow⟩ := hevent
    obtain ⟨⟨s₁, sent₁⟩, hpending, hrest⟩ := bind_eq_ok.mp hstep
    have hs₁ := hs.of_quiet (Served.processPending hpending).quiet
    dsimp only at hrest
    split_ifs at hrest
    · cases hmsgs : (s₁.nodes q).vProcessMsg with
      | nil =>
        rw [hmsgs] at hrest
        cases hrest
        exact hs₁
      | cons msg rest =>
        rw [hmsgs] at hrest
        obtain ⟨⟨s₂, sent₂⟩, hmessage, hend⟩ := bind_eq_ok.mp hrest
        cases hend
        have hmsg := hs₁.messages msg (by rw [hmsgs]; exact mem_cons_self)
        exact (hs₁.pop hmsgs).of_quiet (Served.processMessage hmsg hmessage).1
    · cases hrest
      exact hs₁
  | _ => cases hevent

theorem forget_step (hs : Conceals h e p s) (hevent : InSession p e event)
    (hrev : ¬ Reveals E h s event) :
    (s.forget h).step E event = forgetFst h <$> s.step E event := by
  cases event with
  | receive q msg => rfl
  | pauseSend q fPauseSend => rfl
  | process q now chance =>
    obtain ⟨rfl, hnow⟩ := hevent
    exact forget_processMessages E hs hnow chance hrev
  | _ => cases hevent

theorem step_reveals (hs : Conceals h e p s) (hevent : InSession p e event)
    (hrev : Reveals E h s event) :
    ∃ r r', s.step E event = .ok r ∧ (s.forget h).step E event = .ok r' ∧ Diverges r.2 r'.2 := by
  cases event with
  | process q now chance =>
    obtain ⟨rfl, hnow⟩ := hevent
    exact processMessages_reveals E hs hnow chance hrev
  | _ =>
    obtain ⟨_, _, _, hprocess, -⟩ := hrev
    cases hprocess

/-- The answers in a session are the same with and without the transaction just when none comes from
its stem pool entry. -/
theorem replies_forget_iff (hs : Conceals h e p s) (events : List (NetEvent X))
    (hevents : ∀ event ∈ events, InSession p e event) :
    s.replies E events = (s.forget h).replies E events ↔
      ∀ before event after s' sent, events = before ++ event :: after →
        s.run E before = .ok (s', sent) → ¬ Reveals E h s' event := by
  induction events generalizing s with
  | nil =>
    constructor
    · intro _ before event after s' sent hsplit
      exact absurd hsplit.symm (append_ne_nil_of_right_ne_nil _ (cons_ne_nil _ _))
    · intro _
      rfl
  | cons event events ih =>
    have hevent := hevents event mem_cons_self
    have hrest : ∀ event' ∈ events, InSession p e event' :=
      fun event' hmem => hevents event' (mem_cons_of_mem _ hmem)
    rw [forall_run_cons]
    by_cases hrev : Reveals E h s event
    · obtain ⟨r, r', hr, hr', hdiv⟩ := step_reveals hs hevent hrev
      rw [replies, replies, hr, hr']
      exact iff_of_false (hdiv _ _) fun hnever => hnever.1 hrev
    · rw [replies, replies, forget_step hs hevent hrev]
      cases hstep : s.step E event with
      | error fault => exact iff_of_true rfl ⟨hrev, nofun⟩
      | ok r =>
        obtain ⟨s₁, sent₁⟩ := r
        change sent₁ ++ s₁.replies E events = sent₁ ++ (s₁.forget h).replies E events ↔ _
        rw [append_cancel_left_eq, ih (hs.step hevent hstep) hrest]
        constructor
        · intro hnever
          refine ⟨hrev, fun s₂ sent₂ heq => ?_⟩
          cases heq
          exact hnever
        · exact fun hnever => hnever.2 s₁ sent₁ rfl

end session

def sampleTx : CTransaction := ⟨[⟨⟨7, 0⟩, [], 0, []⟩], [⟨1000, [], CScript.short_nil⟩], 2, 0⟩

def sampleHash : Uint256 := sampleTx.getHash acceptingCrypto

def rebroadcast : List (NetEvent acceptingCrypto) :=
  [.connect 0 .outboundFullRelay ⟨false, false, false, false⟩ false, .handshake 0 false true,
    .connect 1 .outboundFullRelay ⟨false, false, false, false⟩ false, .handshake 1 false true,
    .receive 1 (.tx sampleTx), .process 1 0 sampleChance, .send 0 1 sampleChance,
    .pools .empty .empty [], .routes [] ∅ (some 1), .broadcast sampleTx 2 true true sampleChance]

def probe : List (NetEvent acceptingCrypto) :=
  [.receive 0 (.inv [⟨msgDandelionTx, sampleHash⟩]), .process 0 3 sampleChance,
    .receive 0 (.getData [⟨msgTx, sampleHash⟩]), .process 0 4 sampleChance]

theorem probe_reveals : ∃ s sent, (start .empty).run (acceptingEnv acceptingCrypto) rebroadcast =
      .ok (s, sent) ∧ s.mempool.contains sampleHash = false ∧
    s.mDandelionEmbargo.lookup sampleHash = some 30000000 ∧
    s.replies (acceptingEnv acceptingCrypto) probe =
      [.getData ⟨msgDandelionTx, sampleHash⟩, .tx sampleTx] ∧
    (s.forget sampleHash).replies (acceptingEnv acceptingCrypto) probe =
      [.getData ⟨msgDandelionTx, sampleHash⟩, .notFound [⟨msgTx, sampleHash⟩]] ∧
    s.replies (acceptingEnv acceptingCrypto) probe ≠
      (s.forget sampleHash).replies (acceptingEnv acceptingCrypto) probe := by
  have hne : [Sent.getData ⟨msgDandelionTx, sampleHash⟩, .tx sampleTx] ≠
      [.getData ⟨msgDandelionTx, sampleHash⟩, .notFound [⟨msgTx, sampleHash⟩]] := by
    intro heq
    cases heq
  exact ⟨_, _, rfl, rfl, rfl, rfl, rfl, hne⟩

theorem replies_forget_stemmed : ∃ s sent,
    (start .empty).run (acceptingEnv acceptingCrypto) rebroadcast = .ok (s, sent) ∧
    (s.replies (acceptingEnv acceptingCrypto) probe =
        (s.forget sampleHash).replies (acceptingEnv acceptingCrypto) probe ↔
      ∀ before event after s' sent, probe = before ++ event :: after →
        s.run (acceptingEnv acceptingCrypto) before = .ok (s', sent) →
        ¬ Reveals (acceptingEnv acceptingCrypto) sampleHash s' event) := by
  refine ⟨_, _, rfl, ?_⟩
  apply replies_forget_iff (e := 30000000) (p := 0)
  · constructor
    · rfl
    · intro embargo hlookup
      exact (Option.some.inj hlookup).symm
    · intro msg hmem
      cases hmem
  · intro event hmem
    simp only [probe, mem_cons, not_mem_nil, or_false] at hmem
    rcases hmem with rfl | rfl | rfl | rfl
    · exact ⟨rfl, rfl⟩
    · exact ⟨rfl, by decide⟩
    · exact ⟨rfl, rfl⟩
    · exact ⟨rfl, by decide⟩

end PeerManager
end Vexta
