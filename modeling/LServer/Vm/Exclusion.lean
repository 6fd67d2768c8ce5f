import LServer.Vm.Machine

/-!
Programs sharing `Http::vm_`. `lock` and `unlock` look their number up with `resources_[num]`
under the shared lock, which inserts on first use, so two overlapping lookups race when one of
them inserts (`Holding.Racy`); `unlock` then clears `taken` whoever holds the resource.
-/

set_option autoImplicit false

namespace LServer

namespace LSVirtualMachine

def apply (vm : LSVirtualMachine) (id : Nat) : VmCall → Option LSVirtualMachine
  | .lock n => vm.lock id n false
  | .unlock n => some (vm.unlock id n)
  | .sleep _ | .loop _ => some vm
  | .cleanup => some (vm.cleanup id)

end LSVirtualMachine

def VmCall.num? : VmCall → Option Nat
  | .lock n | .unlock n => some n
  | _ => none

def holdsAfter (holds : Nat → Nat → Bool) (id : Nat) : VmCall → Nat → Nat → Bool
  | .lock n => fun a m => if a = id ∧ m = n then true else holds a m
  | .unlock n => fun a m => if a = id ∧ m = n then false else holds a m
  | .sleep _ | .loop _ => holds
  | .cleanup => fun a m => if a = id then false else holds a m

/-- The machine with its map's keys, the lookups under the shared lock, and who holds what. -/
structure Holding where
  vm : LSVirtualMachine
  keys : List Nat
  lookups : List (Nat × Nat)
  pending : Nat → Option VmCall
  holds : Nat → Nat → Bool

namespace Holding

def init : Holding := ⟨.init, [], [], fun _ => none, fun _ _ => false⟩

inductive Act where
  | call (c : VmCall)
  | found
  | finish
  deriving DecidableEq, Repr

def idle (S : Holding) (id : Nat) : Bool :=
  S.pending id = none && S.lookups.all (·.1 != id)

/-- A program's next move: a call begins, a lookup returns, or the rest of the call runs. -/
def step (S : Holding) (id : Nat) : Act → Option Holding
  | .call c =>
    if S.idle id then
      match c.num? with
      | some n => some { S with
          lookups := S.lookups ++ [(id, n)], pending := Function.update S.pending id (some c) }
      | none =>
        if c = .cleanup ∧ S.lookups ≠ [] then none
        else (fun vm => { S with vm := vm, holds := holdsAfter S.holds id c }) <$> S.vm.apply id c
    else none
  | .found =>
    match S.pending id >>= VmCall.num? with
    | some n =>
      if (id, n) ∈ S.lookups then
        some { S with
          lookups := S.lookups.erase (id, n), keys := if n ∈ S.keys then S.keys else S.keys ++ [n] }
      else none
    | none => none
  | .finish =>
    match S.pending id with
    | some c =>
      if S.lookups.any (·.1 == id) then none
      else
        (fun vm => { S with
          vm := vm
          pending := Function.update S.pending id none
          holds := holdsAfter S.holds id c }) <$> S.vm.apply id c
    | none => none

def run : Holding → List (Nat × Act) → Option Holding
  | S, [] => some S
  | S, (id, a) :: t => (S.step id a).bind fun S' => S'.run t

/-- Two lookups overlap while one of them inserts: a data race on `resources_`. -/
def Racy (S : Holding) : Prop := 2 ≤ S.lookups.length ∧ ∃ p ∈ S.lookups, p.2 ∉ S.keys

instance (S : Holding) : Decidable S.Racy := inferInstanceAs (Decidable (_ ∧ _))

def UnlocksOwn (S : Holding) (id : Nat) : Act → Prop
  | .finish => ∀ n, S.pending id = some (.unlock n) → ∀ b, S.holds b n = true → b = id
  | _ => True

/-- The runs that keep the `UNLOCK` discipline and never race on the map. -/
inductive Reachable : Holding → Prop
  | init : Reachable init
  | step {S S' : Holding} {id : Nat} {a : Act} :
      Reachable S → S.UnlocksOwn id a → S.step id a = some S' → ¬ S'.Racy → Reachable S'

def Agrees (vm : LSVirtualMachine) (holds : Nat → Nat → Bool) : Prop :=
  ∀ a n, holds a n = true → (vm.resources n).taken = true ∧ (vm.resources n).holderId = a

theorem Agrees.apply {vm vm' : LSVirtualMachine} {holds : Nat → Nat → Bool} {id : Nat}
    {c : VmCall} (hi : Agrees vm holds)
    (hw : ∀ n, c = .unlock n → ∀ b, holds b n = true → b = id) (h : vm.apply id c = some vm') :
    Agrees vm' (holdsAfter holds id c) := by
  intro a m ha
  cases c with
  | lock n =>
    obtain ⟨hfree, rfl⟩ := LSVirtualMachine.lock_eq_some h
    simp only [holdsAfter] at ha
    by_cases hm : m = n
    · subst hm
      split_ifs at ha with hid
      · simp [hid.1]
      · exact absurd (hi a m ha).1 (by simp [hfree])
    · simpa [hm] using hi a m (by simpa [hm] using ha)
  | unlock n =>
    cases h
    simp only [holdsAfter] at ha
    split_ifs at ha with hid
    by_cases hm : m = n
    · subst hm
      exact absurd (hw m rfl a ha) (fun e => hid ⟨e, rfl⟩)
    · simpa [hm] using hi a m ha
  | sleep _ => cases h; exact hi a m ha
  | loop _ => cases h; exact hi a m ha
  | cleanup =>
    cases h
    simp only [holdsAfter] at ha
    split_ifs at ha with hid
    have := hi a m ha
    simp [this.2, hid, this.1]

theorem step_agrees {S S' : Holding} {id : Nat} {a : Act} (hi : Agrees S.vm S.holds)
    (hw : S.UnlocksOwn id a) (h : S.step id a = some S') : Agrees S'.vm S'.holds := by
  cases a with
  | call c =>
    simp only [step] at h
    split at h
    · split at h
      · cases h; exact hi
      · split at h
        · cases h
        · obtain ⟨vm, hvm, rfl⟩ := Option.map_eq_some'.mp h
          exact hi.apply (by rintro n rfl; simp [VmCall.num?] at *) hvm
    · cases h
  | found =>
    simp only [step] at h
    split at h
    · split at h
      · cases h; exact hi
      · cases h
    · cases h
  | finish =>
    simp only [step] at h
    split at h
    · rename_i c hc
      split at h
      · cases h
      · obtain ⟨vm, hvm, rfl⟩ := Option.map_eq_some'.mp h
        exact hi.apply (fun n e => hw n (e ▸ hc)) hvm
    · cases h

theorem reachable_agrees {S : Holding} (h : Reachable S) : Agrees S.vm S.holds := by
  induction h with
  | init => exact fun _ _ h => by cases h
  | step _ hw hs _ ih => exact step_agrees ih hw hs

end Holding

/-- Without a foreign `UNLOCK` or a racing lookup, each resource has at most one holder. -/
theorem holder_unique {S : Holding} (h : Holding.Reachable S) (n a b : Nat)
    (ha : S.holds a n = true) (hb : S.holds b n = true) : a = b := by
  have hi := Holding.reachable_agrees h
  exact (hi a n ha).2.symm.trans (hi b n hb).2

theorem holder_unique_after_own_unlock :
    ∃ S, Holding.init.run [(1, .call (.lock 7)), (1, .found), (1, .finish),
        (1, .call (.unlock 7)), (1, .found), (1, .finish),
        (2, .call (.lock 7)), (2, .found), (2, .finish)] = some S ∧
      Holding.Reachable S ∧ S.holds 2 7 = true ∧ ∀ b, S.holds b 7 = true → b = 2 := by
  have h₃ := @Holding.Reachable.step _ _ 1 .finish
    (@Holding.Reachable.step _ _ 1 .found
      (@Holding.Reachable.step _ _ 1 (.call (.lock 7)) .init trivial rfl (by decide))
      trivial rfl (by decide)) (fun _ h => by cases h) rfl (by decide)
  have h₆ := @Holding.Reachable.step _ _ 1 .finish
    (@Holding.Reachable.step _ _ 1 .found
      (@Holding.Reachable.step _ _ 1 (.call (.unlock 7)) h₃ trivial rfl (by decide))
      trivial rfl (by decide))
    (fun n hn b hb => by
      simp only [Function.update_same, Option.some.injEq, VmCall.unlock.injEq] at hn
      subst hn
      simpa [holdsAfter, Holding.init] using hb) rfl (by decide)
  have h₉ := @Holding.Reachable.step _ _ 2 .finish
    (@Holding.Reachable.step _ _ 2 .found
      (@Holding.Reachable.step _ _ 2 (.call (.lock 7)) h₆ trivial rfl (by decide))
      trivial rfl (by decide)) (fun _ h => by cases h) rfl (by decide)
  exact ⟨_, rfl, h₉, rfl, fun b hb => holder_unique h₉ 7 b 2 hb rfl⟩

namespace Holding

theorem run_append {S S₁ S₂ : Holding} {l₁ l₂ : List (Nat × Act)} (h₁ : S.run l₁ = some S₁)
    (h₂ : S₁.run l₂ = some S₂) : S.run (l₁ ++ l₂) = some S₂ := by
  induction l₁ generalizing S with
  | nil => cases h₁; exact h₂
  | cons x l ih =>
    obtain ⟨_, _⟩ := x
    obtain ⟨S', hs, h₁⟩ := Option.bind_eq_some.1 h₁
    simp only [List.cons_append, run, hs, Option.some_bind]
    exact ih h₁

section Calls
variable (S : Holding) {id n : Nat} {c : VmCall}

theorem step_call_num (hi : S.idle id = true) (hc : c.num? = some n) :
    S.step id (.call c) = some { S with
      lookups := S.lookups ++ [(id, n)], pending := Function.update S.pending id (some c) } := by
  simp only [step, hi, if_true, hc]

theorem step_found (hp : S.pending id = some c) (hc : c.num? = some n) (hl : (id, n) ∈ S.lookups) :
    S.step id .found = some { S with
      lookups := S.lookups.erase (id, n), keys := if n ∈ S.keys then S.keys else S.keys ++ [n] } := by
  simp only [step, hp, Option.bind_eq_bind, Option.some_bind, hc, hl, if_true]

theorem step_finish (hp : S.pending id = some c) (hl : S.lookups.all (·.1 != id) = true)
    {vm : LSVirtualMachine} (hv : S.vm.apply id c = some vm) :
    S.step id .finish = some { S with
      vm := vm
      pending := Function.update S.pending id none
      holds := holdsAfter S.holds id c } := by
  have : S.lookups.any (·.1 == id) = false := by
    simpa [List.all_eq_true, List.any_eq_false] using hl
  simp only [step, hp, this, Bool.false_eq_true, if_false, hv, Option.map_eq_map, Option.map_some']

theorem run_whole (hi : S.idle id = true) (hc : c.num? = some n) {vm : LSVirtualMachine}
    (hv : S.vm.apply id c = some vm) :
    S.run [(id, .call c), (id, .found), (id, .finish)] = some { S with
      vm := vm
      keys := if n ∈ S.keys then S.keys else S.keys ++ [n]
      holds := holdsAfter S.holds id c } := by
  rw [idle, Bool.and_eq_true, decide_eq_true_eq] at hi
  obtain ⟨hp, hl⟩ := hi
  have hl' : (id, n) ∉ S.lookups := fun hm => by simpa using List.all_eq_true.1 hl _ hm
  have h₂ := @step_found { S with
    lookups := S.lookups ++ [(id, n)]
    pending := Function.update S.pending id (some c) } id n c (by simp) hc (by simp)
  have h₃ := @step_finish { S with
    lookups := (S.lookups ++ [(id, n)]).erase (id, n)
    keys := if n ∈ S.keys then S.keys else S.keys ++ [n]
    pending := Function.update S.pending id (some c) } id c (by simp)
    (by simpa [List.erase_append_right _ hl'] using hl) vm hv
  simp only [run, @step_call_num S id n c (by simp [idle, hp, hl]) hc, Option.some_bind, h₂, h₃]
  simp only [List.erase_append_right _ hl', List.erase_cons_head, List.append_nil,
    Function.update_idem]
  congr
  funext j
  by_cases e : j = id
  · subst e; simp [hp]
  · simp [Function.update_noteq e]

end Calls

end Holding

/-- A foreign `UNLOCK` gives a resource two holders; two first lookups of a number race. -/
theorem exclusion_fails :
    (∀ (S : Holding) {a b n : Nat}, S.holds a n = true → a ≠ b → S.idle b = true →
      ∃ S', S.run [(b, .call (.unlock n)), (b, .found), (b, .finish),
          (b, .call (.lock n)), (b, .found), (b, .finish)] = some S' ∧
        S'.holds a n = true ∧ S'.holds b n = true) ∧
    (∀ (S : Holding) {a b n : Nat} {c d : VmCall}, n ∉ S.keys → a ≠ b → S.idle a = true →
      S.idle b = true → c.num? = some n → d.num? = some n →
      ∃ S', S.run [(a, .call c), (b, .call d)] = some S' ∧ S'.Racy) := by
  refine ⟨fun S a b n ha hab hb => ?_, fun S a b n c d hn hab ha hb hc hd => ?_⟩
  · have h₁ := @Holding.run_whole S b n (.unlock n) hb rfl _ rfl
    set S₁ : Holding := { S with
      vm := S.vm.unlock b n
      keys := if n ∈ S.keys then S.keys else S.keys ++ [n]
      holds := holdsAfter S.holds b (.unlock n) }
    have hb₁ : S₁.idle b = true := hb
    have h₂ := @Holding.run_whole S₁ b n (.lock n) hb₁ rfl (S₁.vm.set n ⟨true, b⟩)
      (by simp [LSVirtualMachine.apply, LSVirtualMachine.lock, S₁])
    exact ⟨_, Holding.run_append h₁ h₂, by simp [S₁, holdsAfter, ha, hab], by simp [holdsAfter]⟩
  · let S₁ : Holding := { S with
      lookups := S.lookups ++ [(a, n)]
      pending := Function.update S.pending a (some c) }
    have hb' : S₁.idle b = true := by
      simp only [Holding.idle, Bool.and_eq_true, List.all_append] at hb ⊢
      simp [S₁, Function.update_noteq (Ne.symm hab), hb.1, hb.2, hab]
    refine ⟨{ S₁ with
      lookups := S₁.lookups ++ [(b, n)]
      pending := Function.update S₁.pending b (some d) }, ?_, by simp [S₁], (a, n), by simp [S₁], hn⟩
    simp only [Holding.run, Holding.step_call_num S ha hc, Option.some_bind,
      Holding.step_call_num S₁ hb' hd]

theorem exclusion_fails_on_resource_seven :
    (∃ S, Holding.init.run [(1, .call (.lock 7)), (1, .found), (1, .finish)] = some S ∧
      S.holds 1 7 = true ∧ S.idle 2 = true ∧
      ∃ S', S.run [(2, .call (.unlock 7)), (2, .found), (2, .finish),
          (2, .call (.lock 7)), (2, .found), (2, .finish)] = some S' ∧
        S'.holds 1 7 = true ∧ S'.holds 2 7 = true) ∧
    ∃ S', Holding.init.run [(1, .call (.lock 7)), (2, .call (.lock 7))] = some S' ∧ S'.Racy :=
  ⟨⟨_, rfl, rfl, rfl, exclusion_fails.1 _ rfl (by decide) rfl⟩,
    exclusion_fails.2 Holding.init (by decide) (by decide) rfl rfl rfl rfl⟩

end LServer
