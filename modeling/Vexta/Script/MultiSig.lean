import Vexta.Lib.Matching
import Vexta.Script.RawAgree
import Vexta.Script.SoftFork

/-! `OP_CHECKMULTISIG` finds an order-preserving assignment of signatures to keys if there is one.
-/
namespace Vexta
open Lib List

namespace Raw
section
variable (X : Crypto) (checker : SignatureChecker) (flags : Flags) (sigversion : SigVersion)
  {stack : List Bytes}

variable {rest : List Bytes} {i : ℕ} {sigs : List Bytes} {j : ℕ} {α : Type} {n : ℕ}
  {x : Except Stop α}

theorem drop_succ {vch : Bytes} (h : stack.drop i = vch :: rest) : stack.drop (i + 1) = rest := by
  rw [← tail_drop, h]
  rfl

theorem dropSignatures_agrees (h : stack.drop j = sigs ++ rest) (scriptCode : CScript) :
    Agrees Eq (dropSignatures flags sigversion stack sigs.length (j + 1) scriptCode)
      (sigs.foldlM (dropSignature flags sigversion) scriptCode) := by
  induction sigs generalizing j scriptCode with
  | nil => exact .ok rfl
  | cons sig sigs ih =>
    rw [cons_append] at h
    rw [length_cons, dropSignatures, stackTop_of_drop h, ok_bind, foldlM_cons]
    exact (call_agrees _).bindEq fun code _ => ih (drop_succ h) code

theorem matchLoop_agrees {keys srest krest : List Bytes} (hs : stack.drop j = sigs ++ srest)
    (hk : stack.drop i = keys ++ krest) (hle : sigs.length ≤ keys.length) (scriptCode : CScript)
    (calls : List (Bytes × Bytes)) :
    Agrees (fun result b => result.1 = b ∧
        ∃ asked, result.2 = calls ++ asked ∧ (asked.map Prod.snd).Sublist keys)
      (matchLoop X checker flags sigversion stack scriptCode keys.length sigs.length (i + 1) (j + 1)
        calls)
      (matchSignatures X checker flags sigversion scriptCode sigs keys) := by
  induction keys generalizing sigs i j calls with
  | nil =>
    obtain rfl : sigs = [] := length_eq_zero_iff.mp (Nat.le_zero.mp hle)
    exact .ok ⟨rfl, [], (append_nil calls).symm, List.Sublist.refl _⟩
  | cons key keys ih =>
    cases sigs with
    | nil => exact .ok ⟨rfl, [], (append_nil calls).symm, nil_sublist _⟩
    | cons sig sigs =>
      rw [cons_append] at hs hk
      rw [length_cons, length_cons, matchLoop, matchSignatures, stackTop_of_drop hs,
        stackTop_of_drop hk, ok_bind, ok_bind]
      refine (call_agrees _).bindEq fun _ _ => (call_agrees _).bindEq fun _ _ => ?_
      refine (call_agrees _).bindEq fun fOk _ => ?_
      -- the pair just asked comes before those of the rest of the loop
      have hweaken : ∀ (result : Bool × List (Bytes × Bytes)) (b : Bool), (result.1 = b ∧
          ∃ asked, result.2 = (calls ++ [(sig, key)]) ++ asked ∧
            (asked.map Prod.snd).Sublist keys) →
          (result.1 = b ∧ ∃ asked, result.2 = calls ++ asked ∧
            (asked.map Prod.snd).Sublist (key :: keys)) := by
        rintro result b ⟨hresult, asked, hasked, hsub⟩
        refine ⟨hresult, (sig, key) :: asked, ?_, ?_⟩
        · rw [hasked, append_assoc, singleton_append]
        · exact hsub.cons_cons key
      have hend : Agrees (fun result b => result.1 = b ∧ ∃ asked, result.2 = calls ++ asked ∧
          (asked.map Prod.snd).Sublist (key :: keys)) (.ok (false, calls ++ [(sig, key)]))
          (.ok false) :=
        .ok ⟨rfl, [(sig, key)], rfl, (nil_sublist keys).cons_cons key⟩
      cases fOk with
      | true =>
        refine .ite (fun _ => hend) fun hleft => ?_
        exact (ih (drop_succ hs) (drop_succ hk) (not_lt.mp hleft) _).mono hweaken
      | false =>
        refine .ite (fun _ => hend) fun hleft => ?_
        have hagain : stack.drop j = (sig :: sigs) ++ srest := hs
        exact (ih hagain (drop_succ hk) (not_lt.mp hleft) _).mono hweaken

theorem cleanUp_agrees (requireNull : Bool) (ikey2 : ℕ) (h : i ≤ stack.length) :
    Agrees Eq (cleanUp requireNull i ikey2 stack)
      (cleanUpArguments requireNull i ikey2 stack) := by
  induction i generalizing ikey2 stack with
  | zero => exact .ok rfl
  | succ i ih =>
    cases stack with
    | nil => simp at h
    | cons top stack =>
      have hle : i ≤ stack.length := by simpa using h
      rw [cleanUp, cleanUpArguments]
      simp only [stackTop_one, popStack_cons, ok_bind]
      by_cases hcheck : requireNull = true ∧ ikey2 = 0
      · rw [if_pos hcheck]
        by_cases htop : top.length ≠ 0
        · rw [if_pos (decide_eq_true htop), if_pos ⟨hcheck.1, hcheck.2, htop⟩]
          exact .error _
        · rw [if_neg (by simpa using htop), if_neg fun hall => htop hall.2.2]
          exact ih (ikey2 - 1) hle
      · rw [if_neg hcheck, if_neg Bool.false_ne_true,
          if_neg fun hall => hcheck ⟨hall.1, hall.2.1⟩]
        exact ih (ikey2 - 1) hle

/-- Pairs put to the checker have keys below the top, counted as operations. -/
def AskedOnce (st : ExecState) (result : ExecState × List (Bytes × Bytes)) (st' : ExecState) :
    Prop :=
  result.1 = st' ∧ ∃ nKeysCount, st'.nOpCount = st.nOpCount + nKeysCount ∧
    (result.2.map Prod.snd).Sublist (st.stack.tail.take nKeysCount)

theorem popDummy_cons (dummy : Bytes) (rest : List Bytes) :
    popDummy flags (dummy :: rest) =
      if flags .nullDummy ∧ dummy.length ≠ 0 then fail .sigNullDummy else .ok rest := by
  unfold popDummy
  simp only [need_cons, need_zero, stackTop_one, popStack_cons, ok_bind]
  by_cases hflag : flags .nullDummy = true
  · by_cases hdummy : dummy.length ≠ 0
    · simp [hflag, hdummy]
    · simp [hflag, hdummy]
  · simp [hflag]

theorem popDummy_agrees {R : ExecState × List (Bytes × Bytes) → α → Prop}
    {f : List Bytes → Except Stop (ExecState × List (Bytes × Bytes))}
    {g : List Bytes → Except Failure α} (stack : List Bytes)
    (h : ∀ rest, Agrees R (f rest) (g rest)) :
    Agrees R (popDummy flags stack >>= f) (match stack with
      | [] => setError .invalidStackOperation
      | dummy :: rest =>
        if flags .nullDummy ∧ dummy.length ≠ 0 then setError .sigNullDummy else g rest) := by
  cases stack with
  | nil => exact .error _
  | cons dummy rest =>
    rw [popDummy_cons]
    dsimp only
    split_ifs
    · exact .error _
    · exact h rest

theorem need_of_le (h : n ≤ stack.length) :
    need n stack x = x := if_neg (Nat.not_lt.mpr h)

theorem need_of_lt (h : stack.length < n) :
    need n stack x = fail .invalidStackOperation := if_pos h

theorem evalCheckMultiSig_agrees (verify : Bool) (st : ExecState) :
    Agrees (AskedOnce st) (evalCheckMultiSig X checker flags sigversion verify st)
      (Vexta.evalCheckMultiSig X checker flags sigversion verify st) := by
  unfold evalCheckMultiSig Vexta.evalCheckMultiSig evalMultiSig AskedOnce
  refine .ite (fun _ => .error _) fun _ => ?_
  cases hstack : st.stack with
  | nil => exact .error _
  | cons top args =>
    simp only [need_cons, need_zero, stackTop_one, ok_bind, tail_cons]
    refine (readNum_agrees _ _ _).bindEq fun n _ => ?_
    refine .ite (fun _ => .error _) fun _ => .ite (fun _ => .error _) fun _ => ?_
    generalize (getInt n).toNat = k
    cases hdrop : args.drop k with
    | nil =>
      have hshort : (top :: args).length < 2 + k := by
        have hle := drop_eq_nil_iff.mp hdrop
        rw [length_cons]
        omega
      rw [need_of_lt hshort]
      exact .error _
    | cons sigsCount rest =>
      have hlength : (top :: args).length = 2 + k + rest.length := by
        have hsize := congrArg List.length hdrop
        rw [length_drop, length_cons] at hsize
        rw [length_cons]
        omega
      have hcount : (top :: args).drop (1 + k) = sigsCount :: rest := by
        rw [Nat.add_comm, drop_succ_cons, hdrop]
      have hrest : (top :: args).drop (2 + k) = rest := by
        have hnext := drop_succ hcount
        rwa [show 1 + k + 1 = 2 + k by omega] at hnext
      have htop : stackTop (top :: args) (2 + k) = .ok sigsCount := by
        rw [show 2 + k = 1 + k + 1 by omega]
        exact stackTop_of_drop hcount
      rw [need_of_le (by omega), htop, ok_bind]
      refine (readNum_agrees _ _ _).bindEq fun n' _ => ?_
      refine .ite (fun _ => .error _) fun hsigs => ?_
      have hle : (getInt n').toNat ≤ k := by omega
      revert hle
      generalize (getInt n').toNat = m
      intro hle
      by_cases hshort : rest.length < m + 1
      · rw [if_pos hshort, need_of_lt (by omega)]
        exact .error _
      rw [if_neg hshort, need_of_le (by omega)]
      -- the signatures and the keys are pieces of the stack
      have hkeys : (top :: args).drop 1 = args.take k ++ args.drop k := (take_append_drop k args).symm
      have hsplit : (top :: args).drop (2 + k) = rest.take m ++ rest.drop m := by
        rw [hrest, take_append_drop]
      have hm : (rest.take m).length = m := by
        rw [length_take]
        omega
      have hk : (args.take k).length = k := by
        rw [length_take]
        rw [length_cons] at hlength
        omega
      have hcode := dropSignatures_agrees flags sigversion hsplit st.codehash
      rw [hm] at hcode
      refine hcode.bindEq fun scriptCode _ => ?_
      have hmatch := matchLoop_agrees X checker flags sigversion hsplit hkeys (by omega) scriptCode []
      rw [hm, hk] at hmatch
      refine hmatch.bind fun result fSuccess _ hresult => ?_
      obtain ⟨hfst, asked, hasked, hsub⟩ := hresult
      rw [hfst, show 2 + k + 1 + m - 1 = k + m + 2 by omega]
      refine (cleanUp_agrees _ _ (by omega)).bindEq fun stack _ => ?_
      refine popDummy_agrees flags stack fun rest' => ?_
      refine (pushResult_agrees _ _ _ _).bindEq fun stack' _ => .ok ⟨rfl, k, rfl, ?_⟩
      rw [hasked]
      exact hsub

end
end Raw

/-- The arguments, as many as the numbers say, and the stack below. -/
structure MultiSigArgs (flags : Flags) where
  keysCount : Bytes
  keys : List Bytes
  sigsCount : Bytes
  sigs : List Bytes
  dummy : Bytes
  rest : List Bytes
  keysCount_eq : Raw.readNum keysCount (flags .minimalData) 4 = .ok keys.length
  sigsCount_eq : Raw.readNum sigsCount (flags .minimalData) 4 = .ok sigs.length

section Matching
variable {X : Crypto} {checker : SignatureChecker} {flags : Flags} {sigversion : SigVersion}
  {scriptCode : CScript}

namespace MultiSigArgs

variable (args : MultiSigArgs flags)

def counted : List Bytes :=
  args.keysCount :: (args.keys ++ args.sigsCount :: args.sigs)

def stack : List Bytes := args.counted ++ args.dummy :: args.rest

theorem length_counted :
    args.counted.length = args.keys.length + args.sigs.length + 2 := by
  unfold counted
  simp only [length_cons, length_append]
  omega

theorem drop_keys : args.stack.drop 1 =
    args.keys ++ args.sigsCount :: (args.sigs ++ args.dummy :: args.rest) := by
  unfold stack counted
  simp

theorem drop_sigsCount : args.stack.drop (1 + args.keys.length) =
    args.sigsCount :: (args.sigs ++ args.dummy :: args.rest) := by
  rw [← drop_drop, drop_keys, drop_left]

theorem drop_sigs :
    args.stack.drop (2 + args.keys.length) = args.sigs ++ args.dummy :: args.rest := by
  have hnext := Raw.drop_succ args.drop_sigsCount
  rwa [show 1 + args.keys.length + 1 = 2 + args.keys.length by omega] at hnext

end MultiSigArgs

def SignatureChecker.Verifies (checker : SignatureChecker) (sigversion : SigVersion)
    (scriptCode : CScript) (vchSig vchPubKey : Bytes) : Prop :=
  checker.checkECDSASignature vchSig vchPubKey scriptCode sigversion = .ok true

/-- No encoding rule fails; `scriptCode` is what the signatures commit to. -/
structure MultiSigArgs.Encoded (args : MultiSigArgs flags) (X : Crypto)
    (sigversion : SigVersion) (codehash scriptCode : CScript) : Prop where
  sigs : ∀ vchSig ∈ args.sigs, checkSignatureEncoding X vchSig flags = .ok ()
  keys : ∀ vchPubKey ∈ args.keys, checkPubKeyEncoding vchPubKey flags sigversion = .ok ()
  scriptCode : args.sigs.foldlM (dropSignature flags sigversion) codehash = .ok scriptCode

/-- The rules other than those on encodings, in their order. -/
def MultiSigArgs.refusal (args : MultiSigArgs flags) (sigversion : SigVersion)
    (nOpCount : ℕ) (fSuccess : Bool) : Option ScriptError :=
  if sigversion = .tapscript then some .tapscriptCheckMultiSig
  else if args.keys.length > maxPubkeysPerMultisig then some .pubkeyCount
  else if nOpCount + args.keys.length > maxOpsPerScript then some .opCount
  else if args.sigs.length > args.keys.length then some .sigCount
  else if (!fSuccess && flags .nullFail) ∧ ∃ vchSig ∈ args.sigs, vchSig.length ≠ 0 then
    some .sigNullFail
  else if flags .nullDummy ∧ args.dummy.length ≠ 0 then some .sigNullDummy
  else none

theorem matchSignatures_assigns {sigs keys : List Bytes}
    (hsigs : ∀ vchSig ∈ sigs, checkSignatureEncoding X vchSig flags = .ok ())
    (hkeys : ∀ vchPubKey ∈ keys, checkPubKeyEncoding vchPubKey flags sigversion = .ok ())
    (hchecker : ∀ vchSig vchPubKey,
      ∃ fOk, checker.checkECDSASignature vchSig vchPubKey scriptCode sigversion = .ok fOk) :
    ∃ fSuccess, matchSignatures X checker flags sigversion scriptCode sigs keys = .ok fSuccess ∧
      (fSuccess = true ↔ Assigns (checker.Verifies sigversion scriptCode) sigs keys) := by
  induction keys generalizing sigs with
  | nil =>
    cases sigs with
    | nil => exact ⟨true, rfl, iff_of_true rfl assigns_nil⟩
    | cons vchSig sigs =>
      refine ⟨false, rfl, iff_of_false Bool.false_ne_true fun h => ?_⟩
      have hle := h.length_le
      simp at hle
  | cons vchPubKey keys ih =>
    cases sigs with
    | nil => exact ⟨true, rfl, iff_of_true rfl assigns_nil⟩
    | cons vchSig sigs =>
      obtain ⟨fOk, hfOk⟩ := hchecker vchSig vchPubKey
      have hrest : ∀ key ∈ keys, checkPubKeyEncoding key flags sigversion = .ok () :=
        fun key hkey => hkeys key (mem_cons_of_mem _ hkey)
      rw [matchSignatures, hsigs vchSig mem_cons_self, ok_bind,
        hkeys vchPubKey mem_cons_self, ok_bind, hfOk, ok_bind]
      -- the signatures left have an assignment to the keys left exactly if all had one
      have hnext : ∀ left, (∀ sig ∈ left, checkSignatureEncoding X sig flags = .ok ()) →
          (Assigns (checker.Verifies sigversion scriptCode) (vchSig :: sigs) (vchPubKey :: keys) ↔
            Assigns (checker.Verifies sigversion scriptCode) left keys) →
          ∃ fSuccess, (if left.length > keys.length then .ok false
              else matchSignatures X checker flags sigversion scriptCode left keys) =
                .ok fSuccess ∧
            (fSuccess = true ↔ Assigns (checker.Verifies sigversion scriptCode) (vchSig :: sigs)
              (vchPubKey :: keys)) := by
        intro left hleft hiff
        by_cases hlong : left.length > keys.length
        · rw [if_pos hlong, hiff]
          refine ⟨false, rfl, iff_of_false Bool.false_ne_true fun h => ?_⟩
          exact absurd h.length_le (Nat.not_le.mpr hlong)
        · rw [if_neg hlong, hiff]
          exact ih hleft hrest
      cases fOk with
      | true =>
        have htail : ∀ sig ∈ sigs, checkSignatureEncoding X sig flags = .ok () :=
          fun sig hsig => hsigs sig (mem_cons_of_mem _ hsig)
        exact hnext sigs htail (assigns_cons_of_rel hfOk)
      | false =>
        have hno : ¬ checker.Verifies sigversion scriptCode vchSig vchPubKey := by
          unfold SignatureChecker.Verifies
          rw [hfOk]
          simp
        exact hnext (vchSig :: sigs) hsigs (assigns_cons_of_not_rel hno)

theorem cleanUpArguments_eq (requireNull : Bool) (front rest : List Bytes) (ikey2 : ℕ) :
    cleanUpArguments requireNull front.length ikey2 (front ++ rest) =
      if requireNull ∧ ∃ vch ∈ front.drop ikey2, vch.length ≠ 0 then setError .sigNullFail
      else .ok rest := by
  induction front generalizing ikey2 with
  | nil => simp [cleanUpArguments]
  | cons top front ih =>
    rw [length_cons, cons_append, cleanUpArguments, ih]
    cases ikey2 with
    | zero =>
      by_cases htop : requireNull = true ∧ top.length ≠ 0
      · rw [if_pos ⟨htop.1, rfl, htop.2⟩, if_pos ⟨htop.1, top, mem_cons_self, htop.2⟩]
      · rw [if_neg fun h => htop ⟨h.1, h.2.2⟩]
        congr 1
        simp only [Nat.zero_sub, drop_zero, exists_mem_cons_iff, eq_iff_iff]
        constructor
        · exact fun h => ⟨h.1, .inr h.2⟩
        · rintro ⟨hnull, htop' | hfront⟩
          · exact absurd ⟨hnull, htop'⟩ htop
          · exact ⟨hnull, hfront⟩
    | succ ikey2 =>
      rw [if_neg fun h => Nat.succ_ne_zero _ h.2.1]
      rfl

end Matching

variable {n k : ℕ}

theorem getInt_natCast_gt (hk : k < 2 ^ 31 - 1) : getInt n > k ↔ n > k := by
  unfold getInt
  split_ifs <;> omega

theorem getInt_natCast (hn : n ≤ k) (hk : k < 2 ^ 31 - 1) : getInt n = n := by
  unfold getInt
  split_ifs <;> omega

namespace Raw

variable {α β : Type} {R : α → β → Prop} {x : Except Stop α}

theorem Agrees.of_ok {b : β} (h : Agrees R x (.ok b)) : ∃ a, x = .ok a ∧ R a b := by
  cases h with
  | ok h => exact ⟨_, rfl, h⟩

theorem Agrees.of_eq_ok {a : α} (h : Agrees Eq x (.ok a)) : x = .ok a := by
  obtain ⟨b, hx, hb⟩ := h.of_ok
  rw [hx, hb]

theorem Agrees.of_error {serror : ScriptError} (h : Agrees R x (setError serror))
    (hne : serror ≠ .unknownError) : x = fail serror := by
  unfold setError at h
  cases h with
  | error => rfl
  | scriptNum => exact absurd rfl hne

section
variable {X : Crypto} {checker : SignatureChecker} {flags : Flags} {sigversion : SigVersion}
  {scriptCode : CScript} {st : ExecState}

variable (args : MultiSigArgs flags)

theorem cleanUp_args (requireNull : Bool) :
    cleanUp requireNull (args.keys.length + args.sigs.length + 2) (args.keys.length + 2)
        args.stack =
      if requireNull ∧ ∃ vchSig ∈ args.sigs, vchSig.length ≠ 0 then fail .sigNullFail
      else .ok (args.dummy :: args.rest) := by
  have hle : args.counted.length ≤ args.stack.length := by
    unfold MultiSigArgs.stack
    rw [length_append]
    omega
  have hsigs : args.counted.drop (args.keys.length + 2) = args.sigs := by
    unfold MultiSigArgs.counted
    rw [drop_succ_cons, ← drop_drop, drop_left]
    rfl
  have hagrees := cleanUp_agrees requireNull (args.keys.length + 2) hle
  rw [MultiSigArgs.stack, cleanUpArguments_eq, hsigs, ← MultiSigArgs.stack] at hagrees
  rw [← args.length_counted]
  split_ifs at hagrees ⊢ with hnull
  · exact hagrees.of_error (by decide)
  · exact hagrees.of_eq_ok

theorem evalCheckMultiSig_keys (hstack : st.stack = args.stack) :
    evalCheckMultiSig X checker flags sigversion false st =
      if sigversion = .tapscript then fail .tapscriptCheckMultiSig
      else if args.keys.length > maxPubkeysPerMultisig then fail .pubkeyCount
      else if st.nOpCount + args.keys.length > maxOpsPerScript then fail .opCount
      else evalMultiSig X checker flags sigversion false args.keys.length st := by
  have htop : stackTop st.stack 1 = .ok args.keysCount := by
    rw [hstack]
    rfl
  have hone : 1 ≤ st.stack.length := by
    rw [hstack, MultiSigArgs.stack, MultiSigArgs.counted, cons_append, length_cons]
    omega
  unfold evalCheckMultiSig
  rw [need_of_le hone, htop, ok_bind, args.keysCount_eq, ok_bind]
  by_cases hmany : args.keys.length > maxPubkeysPerMultisig
  · have hgt := (getInt_natCast_gt (n := args.keys.length) (by decide)).mpr hmany
    rw [if_pos hmany, if_pos (Or.inr hgt)]
  · have hle := Nat.not_lt.mp hmany
    have hcount : ¬ ((args.keys.length : ℤ) < 0 ∨
        (args.keys.length : ℤ) > (maxPubkeysPerMultisig : ℕ)) := by omega
    rw [if_neg hmany, getInt_natCast hle (by decide)]
    dsimp only
    rw [Int.toNat_natCast, if_neg hcount]

theorem evalMultiSig_args (hstack : st.stack = args.stack)
    (henc : args.Encoded X sigversion st.codehash scriptCode)
    (hkeys : args.keys.length ≤ maxPubkeysPerMultisig) {fSuccess : Bool}
    {calls : List (Bytes × Bytes)}
    (hmatch : args.sigs.length ≤ args.keys.length →
      matchLoop X checker flags sigversion st.stack scriptCode args.keys.length args.sigs.length 2
        (2 + args.keys.length + 1) [] = .ok (fSuccess, calls)) :
    evalMultiSig X checker flags sigversion false args.keys.length st =
      if args.sigs.length > args.keys.length then fail .sigCount
      else if (!fSuccess && flags .nullFail) ∧ ∃ vchSig ∈ args.sigs, vchSig.length ≠ 0 then
        fail .sigNullFail
      else if flags .nullDummy ∧ args.dummy.length ≠ 0 then fail .sigNullDummy
      else .ok ({ st with
        stack := vchBool fSuccess :: args.rest
        nOpCount := st.nOpCount + args.keys.length }, calls) := by
  have hlength : args.keys.length + args.sigs.length + 3 ≤ st.stack.length := by
    rw [hstack, MultiSigArgs.stack, length_append, args.length_counted, length_cons]
    omega
  have hcount : stackTop st.stack (2 + args.keys.length) = .ok args.sigsCount := by
    rw [hstack, show 2 + args.keys.length = 1 + args.keys.length + 1 by omega]
    exact stackTop_of_drop args.drop_sigsCount
  have hsmall : args.keys.length < 2 ^ 31 - 1 := lt_of_le_of_lt hkeys (by decide)
  unfold evalMultiSig
  dsimp only
  rw [need_of_le (by omega), hcount, ok_bind, args.sigsCount_eq, ok_bind]
  by_cases hmany : args.sigs.length > args.keys.length
  · have hgt := (getInt_natCast_gt (n := args.sigs.length) hsmall).mpr hmany
    rw [if_pos hmany, if_pos (.inr hgt)]
  have hle := Nat.not_lt.mp hmany
  have hcode := dropSignatures_agrees flags sigversion args.drop_sigs st.codehash
  rw [henc.scriptCode, ← hstack] at hcode
  rw [if_neg hmany, getInt_natCast hle hsmall, Int.toNat_natCast, if_neg (by omega),
    need_of_le (by omega), hcode.of_eq_ok, ok_bind, hmatch hle, ok_bind]
  dsimp only
  rw [show 2 + args.keys.length + 1 + args.sigs.length - 1 =
    args.keys.length + args.sigs.length + 2 by omega, hstack, cleanUp_args]
  split_ifs with hnull hdummy
  · rfl
  · rw [ok_bind, popDummy_cons, if_pos hdummy]
    rfl
  · rw [ok_bind, popDummy_cons, if_neg hdummy]
    rfl

/-- `OP_CHECKMULTISIG` on well encoded arguments pushes whether the signatures can be assigned to
keys in order, unless another rule refuses, and asks the checker at most once for each key. -/
theorem evalCheckMultiSig_args (hstack : st.stack = args.stack)
    (henc : args.Encoded X sigversion st.codehash scriptCode)
    (hchecker : ∀ vchSig vchPubKey,
      ∃ fOk, checker.checkECDSASignature vchSig vchPubKey scriptCode sigversion = .ok fOk) :
    ∃ (fSuccess : Bool) (calls : List (Bytes × Bytes)),
      (fSuccess = true ↔ Assigns (checker.Verifies sigversion scriptCode) args.sigs args.keys) ∧
      (args.sigs.length ≤ args.keys.length →
        matchLoop X checker flags sigversion st.stack scriptCode args.keys.length
          args.sigs.length 2 (2 + args.keys.length + 1) [] = .ok (fSuccess, calls)) ∧
      (calls.map Prod.snd).Sublist args.keys ∧
      evalCheckMultiSig X checker flags sigversion false st =
        match args.refusal sigversion st.nOpCount fSuccess with
        | some serror => fail serror
        | none => .ok ({ st with
            stack := vchBool fSuccess :: args.rest
            nOpCount := st.nOpCount + args.keys.length }, calls) := by
  obtain ⟨fSuccess, hmatch, hiff⟩ := matchSignatures_assigns henc.sigs henc.keys hchecker
  have hcalls : ∃ calls : List (Bytes × Bytes), (calls.map Prod.snd).Sublist args.keys ∧
      (args.sigs.length ≤ args.keys.length →
        matchLoop X checker flags sigversion st.stack scriptCode args.keys.length
          args.sigs.length 2 (2 + args.keys.length + 1) [] = .ok (fSuccess, calls)) := by
    by_cases hle : args.sigs.length ≤ args.keys.length
    · have hloop := matchLoop_agrees X checker flags sigversion args.drop_sigs args.drop_keys hle
        scriptCode []
      rw [hmatch, ← hstack] at hloop
      obtain ⟨⟨b, calls⟩, heq, hb, asked, hasked, hsub⟩ := hloop.of_ok
      obtain rfl : b = fSuccess := hb
      obtain rfl : calls = asked := hasked
      exact ⟨calls, hsub, fun _ => heq⟩
    · exact ⟨[], nil_sublist _, fun h => absurd h hle⟩
  obtain ⟨calls, hsub, hloop⟩ := hcalls
  refine ⟨fSuccess, calls, hiff, hloop, hsub, ?_⟩
  rw [evalCheckMultiSig_keys args hstack]
  unfold MultiSigArgs.refusal
  by_cases htap : sigversion = .tapscript
  · simp only [if_pos htap]
  by_cases hmany : args.keys.length > maxPubkeysPerMultisig
  · simp only [if_neg htap, if_pos hmany]
  by_cases hops : st.nOpCount + args.keys.length > maxOpsPerScript
  · simp only [if_neg htap, if_neg hmany, if_pos hops]
  rw [if_neg htap, if_neg hmany, if_neg hops, if_neg htap, if_neg hmany, if_neg hops,
    evalMultiSig_args args hstack henc (Nat.not_lt.mp hmany) hloop]
  split_ifs <;> rfl

end

namespace SampleMultiSig

def flags : Flags := fun _ => false

def checker : SignatureChecker where
  checkECDSASignature vchSig vchPubKey _ _ := .ok (vchSig == vchPubKey)
  checkSchnorrSignature _ _ _ _ := .ok false
  checkPQRSignature _ _ _ _ := .ok false
  checkLockTime _ := .ok false
  checkSequence _ := .ok false

def args : MultiSigArgs flags where
  keysCount := [2]
  keys := [[7], [9]]
  sigsCount := [1]
  sigs := [[9]]
  dummy := []
  rest := [[5]]
  keysCount_eq := by decide
  sigsCount_eq := by decide

def state : ExecState where
  stack := args.stack
  altstack := []
  vfExec := .init
  nOpCount := 1
  codehash := []
  opcodePos := 0
  execdata := .empty

theorem encoded : args.Encoded acceptingCrypto .witnessV0 state.codehash [] where
  sigs := by decide
  keys := by decide
  scriptCode := by decide

end SampleMultiSig

open SampleMultiSig in
theorem evalCheckMultiSig_args_second :
    ∃ calls : List (Bytes × Bytes), (calls.map Prod.snd).Sublist [[7], [9]] ∧
      evalCheckMultiSig acceptingCrypto SampleMultiSig.checker SampleMultiSig.flags .witnessV0 false
        state = .ok ({ state with stack := [vchTrue, [5]], nOpCount := 3 }, calls) := by
  have hchecker : ∀ vchSig vchPubKey, ∃ fOk,
      SampleMultiSig.checker.checkECDSASignature vchSig vchPubKey [] .witnessV0 = .ok fOk :=
    fun _ _ => ⟨_, rfl⟩
  obtain ⟨fSuccess, calls, -, hloop, hsub, heval⟩ :=
    evalCheckMultiSig_args args rfl encoded hchecker
  have hfirst :=
    Except.ok.inj (hloop (by decide))
  obtain ⟨rfl, rfl⟩ := Prod.mk.inj hfirst
  exact ⟨_, hsub, heval⟩

end Raw
end Vexta
