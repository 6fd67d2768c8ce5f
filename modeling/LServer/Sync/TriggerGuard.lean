import LServer.Basic
import Mathlib.Data.List.Count

/-!
`TriggerGuard` (`syncronization_utils.hpp`), the server's shutdown guard, as a system of steps of
its threads, each one atomic action of the source. A counted guard's destructor decrements
`ref_cnt_` and then, as a second step and without `mtx_`, calls `notify_all`.
-/

set_option autoImplicit false

namespace LServer

inductive TriggerPc where
  /-- `mtx_` taken. -/
  | locked
  /-- `triggered_` was false: the wait predicate is evaluated next. -/
  | checking
  /-- The predicate was false, `mtx_` still held: `cv_.wait` blocks next. -/
  | waiting
  /-- Inside `cv_.wait`, `mtx_` released. -/
  | blocked
  /-- Woken (by `notify_all` or spuriously), taking `mtx_` again. -/
  | woken
  /-- `triggered_` stored and `mtx_` released: `trigger()` returned. -/
  | done
  /-- `InactiveTriggerGuardInvoked` thrown, `mtx_` released. -/
  | threw
  deriving DecidableEq, Repr

def TriggerPc.holdsMtx : TriggerPc → Bool
  | .locked | .checking | .waiting => true
  | _ => false

inductive GuardPc where
  | live (counted : Bool)
  | notifying
  | gone
  deriving DecidableEq, Repr

/-- The guard's fields with the threads that use it. -/
structure TriggerGuard where
  triggered : Bool
  refCnt : Nat
  calls : List TriggerPc
  guards : List GuardPc
  deriving DecidableEq, Repr

namespace TriggerGuard

def init : TriggerGuard := ⟨false, 0, [], []⟩

inductive Event where
  /-- A new `trigger()` call takes `std::unique_lock lk{mtx_}`. -/
  | trigger
  /-- `if (triggered_) throw InactiveTriggerGuardInvoked{}`. -/
  | checkTriggered (t : Nat)
  /-- The wait predicate `ref_cnt_.load() == 0`; when true, `triggered_` is stored. -/
  | checkRefCnt (t : Nat)
  /-- `cv_.wait` releases `mtx_` and blocks, as one step. -/
  | wait (t : Nat)
  /-- A spurious wakeup, which `std::condition_variable` allows. -/
  | wakeup (t : Nat)
  /-- The woken wait takes `mtx_` again. -/
  | relock (t : Nat)
  /-- `acquire_scoped_guard()`: under `mtx_`, count the guard unless triggered. -/
  | acquireScopedGuard
  /-- `~ScopedGuard()`: a counted guard's `release_scoped_guard` does `ref_cnt_.fetch_sub(1)`. -/
  | release (g : Nat)
  /-- Then `cv_.notify_all()`, without `mtx_`: every blocked wait wakes. -/
  | notifyAll (g : Nat)
  deriving DecidableEq, Repr

def mtxFree (s : TriggerGuard) : Bool := s.calls.all fun pc => !pc.holdsMtx

def wakeAll (calls : List TriggerPc) : List TriggerPc :=
  calls.map fun pc => if pc = .blocked then .woken else pc

/-- The state after the action, `none` when the action cannot run now. -/
def step (s : TriggerGuard) : Event → Option TriggerGuard
  | .trigger =>
    if s.mtxFree then some { s with calls := s.calls ++ [.locked] } else none
  | .checkTriggered t =>
    if s.calls[t]? = some .locked then
      some (if s.triggered then { s with calls := s.calls.set t .threw }
        else { s with calls := s.calls.set t .checking })
    else none
  | .checkRefCnt t =>
    if s.calls[t]? = some .checking then
      some (if s.refCnt = 0 then { s with triggered := true, calls := s.calls.set t .done }
        else { s with calls := s.calls.set t .waiting })
    else none
  | .wait t =>
    if s.calls[t]? = some .waiting then some { s with calls := s.calls.set t .blocked }
    else none
  | .wakeup t =>
    if s.calls[t]? = some .blocked then some { s with calls := s.calls.set t .woken } else none
  | .relock t =>
    if s.calls[t]? = some .woken ∧ s.mtxFree then some { s with calls := s.calls.set t .checking }
    else none
  | .acquireScopedGuard =>
    if s.mtxFree then
      some { s with
        refCnt := if s.triggered then s.refCnt else s.refCnt + 1
        guards := s.guards ++ [.live !s.triggered] }
    else none
  | .release g =>
    if s.guards[g]? = some (.live true) then
      some { s with refCnt := s.refCnt - 1, guards := s.guards.set g .notifying }
    else if s.guards[g]? = some (.live false) then some { s with guards := s.guards.set g .gone }
    else none
  | .notifyAll g =>
    if s.guards[g]? = some .notifying then
      some { s with calls := wakeAll s.calls, guards := s.guards.set g .gone }
    else none

def run : TriggerGuard → List Event → Option TriggerGuard
  | s, [] => some s
  | s, e :: es => (s.step e).bind fun s' => s'.run es

inductive Reachable : TriggerGuard → Prop
  | init : Reachable init
  | step {s s' : TriggerGuard} {e : Event} : Reachable s → s.step e = some s' → Reachable s'

def test (s : TriggerGuard) : Bool := !s.triggered

/-- The guard's invariant. -/
structure Inv (s : TriggerGuard) : Prop where
  refCnt_eq : s.refCnt = s.guards.count (.live true)
  triggered_refCnt : s.triggered = true → s.refCnt = 0
  uncounted : GuardPc.live false ∈ s.guards → s.triggered = true
  mtx_excl : s.calls.countP TriggerPc.holdsMtx ≤ 1

theorem mtxFree_iff (s : TriggerGuard) : s.mtxFree = true ↔ s.calls.countP TriggerPc.holdsMtx = 0 := by
  simp [mtxFree, List.countP_eq_zero]

theorem countP_wakeAll (calls : List TriggerPc) :
    (wakeAll calls).countP TriggerPc.holdsMtx = calls.countP TriggerPc.holdsMtx := by
  unfold wakeAll
  rw [List.countP_map]
  congr 1
  funext pc
  by_cases h : pc = .blocked
  · subst h; rfl
  · simp [h]

section Steps

variable {s : TriggerGuard} (hi : s.Inv)
include hi

theorem Inv.setCall {t : Nat} {pc : TriggerPc} (ht : s.calls[t]? = some pc) (pc' : TriggerPc)
    (hpc : pc'.holdsMtx = true → pc.holdsMtx = true ∨ s.mtxFree = true) :
    Inv { s with calls := s.calls.set t pc' } := by
  refine ⟨hi.refCnt_eq, hi.triggered_refCnt, hi.uncounted, ?_⟩
  have hx := hi.mtx_excl
  dsimp only
  rw [countP_set_of_getElem? _ ht]
  cases h' : pc'.holdsMtx
  · rw [if_neg Bool.false_ne_true]; split <;> omega
  · rcases hpc h' with h | h
    · rw [if_pos h, if_pos rfl]; omega
    · have := (s.mtxFree_iff).1 h
      rw [if_pos rfl]; split <;> omega

theorem Inv.setTriggered (h0 : s.refCnt = 0) : Inv { s with triggered := true } :=
  ⟨hi.refCnt_eq, fun _ => h0, fun _ => rfl, hi.mtx_excl⟩

theorem Inv.trigger (hf : s.mtxFree = true) : Inv { s with calls := s.calls ++ [.locked] } := by
  refine ⟨hi.refCnt_eq, hi.triggered_refCnt, hi.uncounted, ?_⟩
  rw [s.mtxFree_iff] at hf
  simp [hf]; rfl

theorem Inv.acquireScopedGuard :
    Inv { s with
      refCnt := if s.triggered then s.refCnt else s.refCnt + 1
      guards := s.guards ++ [.live !s.triggered] } := by
  refine ⟨?_, fun h => ?_, fun h => ?_, hi.mtx_excl⟩
  · dsimp only; cases s.triggered <;> simp [hi.refCnt_eq]
  · dsimp only at h ⊢; rw [if_pos h]; exact hi.triggered_refCnt h
  · dsimp only at h ⊢
    rcases List.mem_append.1 h with h | h
    · exact hi.uncounted h
    · cases ht : s.triggered <;> simp_all

theorem Inv.release {g : Nat} (hg : s.guards[g]? = some (.live true)) :
    Inv { s with refCnt := s.refCnt - 1, guards := s.guards.set g .notifying } := by
  refine ⟨?_, fun h => ?_, fun h => ?_, hi.mtx_excl⟩
  · obtain ⟨hl, he⟩ := List.getElem?_eq_some_iff.1 hg
    dsimp only; rw [List.count_set _ _ _ _ hl, he, hi.refCnt_eq]; simp
  · dsimp only; rw [hi.triggered_refCnt h]
  · exact hi.uncounted ((List.mem_or_eq_of_mem_set h).resolve_right (by decide))

theorem Inv.releaseUncounted {g : Nat} (hg : s.guards[g]? = some (.live false)) :
    Inv { s with guards := s.guards.set g .gone } := by
  refine ⟨?_, hi.triggered_refCnt, fun h => ?_, hi.mtx_excl⟩
  · obtain ⟨hl, he⟩ := List.getElem?_eq_some_iff.1 hg
    dsimp only; rw [List.count_set _ _ _ _ hl, he, hi.refCnt_eq]; simp
  · exact hi.uncounted ((List.mem_or_eq_of_mem_set h).resolve_right (by decide))

theorem Inv.notifyAll {g : Nat} (hg : s.guards[g]? = some .notifying) :
    Inv { s with calls := wakeAll s.calls, guards := s.guards.set g .gone } := by
  obtain ⟨hl, he⟩ := List.getElem?_eq_some_iff.1 hg
  refine ⟨?_, hi.triggered_refCnt, fun h => ?_, ?_⟩
  · dsimp only; rw [List.count_set _ _ _ _ hl, he, hi.refCnt_eq]; simp
  · exact hi.uncounted ((List.mem_or_eq_of_mem_set h).resolve_right (by decide))
  · dsimp only; rw [countP_wakeAll]; exact hi.mtx_excl

end Steps

theorem step_inv {s s' : TriggerGuard} {e : Event} (hi : s.Inv) (h : s.step e = some s') :
    s'.Inv := by
  cases e <;> simp only [step] at h
  case trigger => split_ifs at h with hf; cases h; exact hi.trigger hf
  case checkTriggered t =>
    split_ifs at h with ht <;> cases h
    · exact hi.setCall ht .threw (by simp [TriggerPc.holdsMtx])
    · exact hi.setCall ht .checking (fun _ => .inl rfl)
  case checkRefCnt t =>
    split_ifs at h with ht h0 <;> cases h
    · exact (hi.setCall ht .done (by simp [TriggerPc.holdsMtx])).setTriggered h0
    · exact hi.setCall ht .waiting (fun _ => .inl rfl)
  case wait t =>
    split_ifs at h with ht; cases h; exact hi.setCall ht .blocked (by simp [TriggerPc.holdsMtx])
  case wakeup t =>
    split_ifs at h with ht; cases h; exact hi.setCall ht .woken (by simp [TriggerPc.holdsMtx])
  case relock t =>
    split_ifs at h with ht; cases h; exact hi.setCall ht.1 .checking (fun _ => .inr ht.2)
  case acquireScopedGuard =>
    split at h
    · cases h; exact hi.acquireScopedGuard
    · cases h
  case release g =>
    split_ifs at h with hg hg' <;> cases h
    · exact hi.release hg
    · exact hi.releaseUncounted hg'
  case notifyAll g => split_ifs at h with hg; cases h; exact hi.notifyAll hg

theorem Inv.test_of_counted {s : TriggerGuard} (hi : s.Inv) (h : GuardPc.live true ∈ s.guards) :
    s.test = true := by
  cases ht : s.triggered
  · simp [test, ht]
  · have := hi.triggered_refCnt ht
    rw [hi.refCnt_eq, List.count_eq_zero] at this
    exact absurd h this

theorem Inv.test_of_uncounted {s : TriggerGuard} (hi : s.Inv) (h : GuardPc.live false ∈ s.guards) :
    s.test = false := by
  simp [test, hi.uncounted h]

theorem step_triggered_cases {s s' : TriggerGuard} {e : Event} (h : s.step e = some s') :
    s'.triggered = s.triggered ∨ (s.refCnt = 0 ∧ s'.triggered = true) := by
  cases e <;> simp only [step] at h <;> split_ifs at h <;> cases h <;>
    first | exact .inl rfl | exact .inr ⟨‹_›, rfl⟩

theorem step_triggered {s s' : TriggerGuard} {e : Event} (h : s.step e = some s')
    (ht : s.triggered = true) : s'.triggered = true :=
  (step_triggered_cases h).elim (·.trans ht) (·.2)

theorem step_sets_triggered {s s' : TriggerGuard} {e : Event} (h : s.step e = some s')
    (hf : s.triggered = false) (ht : s'.triggered = true) : s.refCnt = 0 :=
  (step_triggered_cases h).elim (fun e => absurd (e.symm.trans ht) (by simp [hf])) (·.1)

theorem init_inv : init.Inv := ⟨rfl, (nomatch ·), (nomatch ·), Nat.zero_le _⟩

theorem reachable_inv {s : TriggerGuard} (h : Reachable s) : s.Inv := by
  induction h with
  | init => exact init_inv
  | step _ hs ih => exact step_inv ih hs

/-! ### Runs -/

theorem run_reachable {s s' : TriggerGuard} {es : List Event} (hs : Reachable s)
    (h : s.run es = some s') : Reachable s' := by
  induction es generalizing s with
  | nil => cases h; exact hs
  | cons e es ih =>
    obtain ⟨s₁, h₁, h₂⟩ := Option.bind_eq_some.1 h
    exact ih (hs.step h₁) h₂

theorem set_guard_live {gs : List GuardPc} {g g' : Nat} {x : GuardPc} (hx : ∀ c, x ≠ .live c)
    (hg : g < gs.length) (c : Bool) :
    g < (gs.set g' x).length ∧ ((gs.set g' x)[g]? = some (.live c) → gs[g]? = some (.live c)) := by
  refine ⟨(List.length_set ..).symm ▸ hg, fun h => ?_⟩
  rw [List.getElem?_set] at h
  split_ifs at h
  · exact absurd (Option.some.inj h) (hx c)
  · exact h

theorem step_guard {s s' : TriggerGuard} {e : Event} (h : s.step e = some s') {g : Nat}
    (hg : g < s.guards.length) (c : Bool) :
    g < s'.guards.length ∧ (s'.guards[g]? = some (.live c) → s.guards[g]? = some (.live c)) := by
  cases e <;> simp only [step] at h
  case acquireScopedGuard =>
    split at h <;> cases h
    refine ⟨by simp only [List.length_append]; omega, fun h' => ?_⟩
    rwa [List.getElem?_append_left hg] at h'
  case release g' =>
    split_ifs at h <;> cases h <;> exact set_guard_live (fun _ h => by cases h) hg c
  case notifyAll g' =>
    split_ifs at h; cases h
    exact set_guard_live (fun _ h => by cases h) hg c
  all_goals split_ifs at h <;> cases h <;> exact ⟨hg, id⟩

theorem run_guard {s s' : TriggerGuard} {es : List Event} (h : s.run es = some s') {g : Nat}
    (hg : g < s.guards.length) {c : Bool} (h' : s'.guards[g]? = some (.live c)) :
    s.guards[g]? = some (.live c) := by
  induction es generalizing s with
  | nil => cases h; exact h'
  | cons e es ih =>
    obtain ⟨s₁, h₁, h₂⟩ := Option.bind_eq_some.1 h
    exact (step_guard h₁ hg c).2 (ih h₂ (step_guard h₁ hg c).1)

theorem step_blocked {s s' : TriggerGuard} {e : Event} {t : Nat}
    (hb : s.calls[t]? = some .blocked) (hg : ∀ g ∈ s.guards, g = .gone) (hw : e ≠ .wakeup t)
    (ha : e ≠ .acquireScopedGuard) (h : s.step e = some s') :
    s'.calls[t]? = some .blocked ∧ ∀ g ∈ s'.guards, g = .gone := by
  have other : ∀ {t' : Nat} {pc : TriggerPc} (x : TriggerPc), s.calls[t']? = some pc →
      pc ≠ .blocked → (s.calls.set t' x)[t]? = some .blocked := fun x ht hpc => by
    rw [List.getElem?_set_ne (by rintro rfl; exact hpc (Option.some.inj (ht.symm.trans hb)))]
    exact hb
  cases e <;> simp only [step] at h
  case trigger =>
    split_ifs at h; cases h
    exact ⟨by rw [List.getElem?_append_left (List.getElem?_eq_some_iff.1 hb).1]; exact hb, hg⟩
  case wakeup t' =>
    split_ifs at h; cases h
    exact ⟨by rw [List.getElem?_set_ne (by rintro rfl; exact hw rfl)]; exact hb, hg⟩
  case acquireScopedGuard => exact absurd rfl ha
  case release g =>
    split_ifs at h with h1 h2
    · exact absurd (hg _ (List.getElem?_mem h1)) (by decide)
    · exact absurd (hg _ (List.getElem?_mem h2)) (by decide)
  case notifyAll g =>
    split_ifs at h with h1
    exact absurd (hg _ (List.getElem?_mem h1)) (by decide)
  all_goals split_ifs at h with ht <;> cases h <;>
    first
    | exact ⟨other _ ht (by decide), hg⟩
    | exact ⟨other _ ht.1 (by decide), hg⟩

theorem run_blocked {s s' : TriggerGuard} {es : List Event} {t : Nat}
    (hb : s.calls[t]? = some .blocked) (hg : ∀ g ∈ s.guards, g = .gone)
    (hes : ∀ e ∈ es, e ≠ .wakeup t ∧ e ≠ .acquireScopedGuard) (h : s.run es = some s') :
    s'.calls[t]? = some .blocked := by
  induction es generalizing s with
  | nil => cases h; exact hb
  | cons e es ih =>
    obtain ⟨s₁, h₁, h₂⟩ := Option.bind_eq_some.1 h
    have hs := hes e (List.mem_cons_self e es)
    obtain ⟨hb₁, hg₁⟩ := step_blocked hb hg hs.1 hs.2 h₁
    exact ih hb₁ hg₁ (fun e' he' => hes e' (List.mem_cons_of_mem e he')) h₂

/-- The lost wakeup: the last guard's `notify_all` can come before `trigger()` waits. -/
theorem trigger_wakeup_lost :
    ∃ s : TriggerGuard, Reachable s ∧ s.calls[0]? = some .blocked ∧ s.refCnt = 0 ∧
      (∀ g ∈ s.guards, g = .gone) ∧
      ∀ (es : List Event) (s' : TriggerGuard),
        (∀ e ∈ es, e ≠ .wakeup 0 ∧ e ≠ .acquireScopedGuard) → s.run es = some s' →
          s'.calls[0]? = some .blocked :=
  ⟨⟨false, 0, [.blocked], [.gone]⟩,
    @run_reachable _ _ [.acquireScopedGuard, .trigger, .checkTriggered 0, .checkRefCnt 0,
      .release 0, .notifyAll 0, .wait 0] .init rfl,
    rfl, rfl, by simp, fun _ _ hes h => run_blocked (s := ⟨false, 0, [.blocked], [.gone]⟩) rfl (by simp) hes h⟩

theorem run_triggered {s s' : TriggerGuard} {es : List Event} (h : s.run es = some s')
    (ht : s.triggered = true) : s'.triggered = true := by
  induction es generalizing s with
  | nil => cases h; exact ht
  | cons e es ih =>
    obtain ⟨s₁, h₁, h₂⟩ := Option.bind_eq_some.1 h
    exact ih h₂ (step_triggered h₁ ht)

theorem step_acquireScopedGuard {s s₁ : TriggerGuard} (h : s.step .acquireScopedGuard = some s₁) :
    s₁.guards = s.guards ++ [.live !s.triggered] := by
  simp only [step] at h
  split at h <;> cases h
  rfl

theorem run_test_of_live {s s₁ s' : TriggerGuard} {es : List Event} {c : Bool}
    (hs : Reachable s) (h₁ : s.step .acquireScopedGuard = some s₁) (h : s₁.run es = some s')
    (hl : s'.guards[s.guards.length]? = some (.live c)) : c = !s.triggered ∧ s'.test = c := by
  have hg := step_acquireScopedGuard h₁
  have h₀ := run_guard h (by simp [hg]) hl
  rw [hg, List.getElem?_append_right (Nat.le_refl _), Nat.sub_self] at h₀
  have hc : c = !s.triggered := by simpa using h₀.symm
  have hi := reachable_inv (run_reachable (hs.step h₁) h)
  refine ⟨hc, ?_⟩
  cases c
  · exact hi.test_of_uncounted (List.getElem?_mem hl)
  · exact hi.test_of_counted (List.getElem?_mem hl)

/-- The guard's contract over every interleaving of its threads. -/
theorem trigger_guard_laws {s : TriggerGuard} (hs : Reachable s) :
    s.refCnt = s.guards.count (.live true) ∧
    (∀ (e : Event) (s' : TriggerGuard), s.step e = some s' → s.triggered = false →
      s'.triggered = true → s.refCnt = 0) ∧
    (∀ (es : List Event) (s' : TriggerGuard), s.triggered = true → s.run es = some s' →
      s'.triggered = true ∧ s'.refCnt = 0) ∧
    (∀ (s₁ : TriggerGuard) (es : List Event) (s' : TriggerGuard) (c : Bool),
      s.step .acquireScopedGuard = some s₁ → s₁.run es = some s' →
      s'.guards[s.guards.length]? = some (.live c) → c = !s.triggered ∧ s'.test = c) ∧
    (s.triggered = true → ∀ s₁ : TriggerGuard, s.step .trigger = some s₁ →
      s₁.step (.checkTriggered s.calls.length) = some { s with calls := s.calls ++ [.threw] }) := by
  refine ⟨(reachable_inv hs).refCnt_eq, fun _ _ h hf ht => step_sets_triggered h hf ht,
    fun _ _ ht h => ?_, fun _ _ _ _ h₁ h hl => run_test_of_live hs h₁ h hl, fun ht s₁ h => ?_⟩
  · have ht' := run_triggered h ht
    exact ⟨ht', (reachable_inv (run_reachable hs h)).triggered_refCnt ht'⟩
  · simp only [step] at h
    split at h <;> cases h
    simp [step, ht]

theorem trigger_guard_laws_after_trigger :
    ∃ s : TriggerGuard, Reachable s ∧ s.triggered = true ∧
      (s.refCnt = s.guards.count (.live true) ∧
      (∀ (e : Event) (s' : TriggerGuard), s.step e = some s' → s.triggered = false →
        s'.triggered = true → s.refCnt = 0) ∧
      (∀ (es : List Event) (s' : TriggerGuard), s.triggered = true → s.run es = some s' →
        s'.triggered = true ∧ s'.refCnt = 0) ∧
      (∀ (s₁ : TriggerGuard) (es : List Event) (s' : TriggerGuard) (c : Bool),
        s.step .acquireScopedGuard = some s₁ → s₁.run es = some s' →
        s'.guards[s.guards.length]? = some (.live c) → c = !s.triggered ∧ s'.test = c) ∧
      (s.triggered = true → ∀ s₁ : TriggerGuard, s.step .trigger = some s₁ →
        s₁.step (.checkTriggered s.calls.length) = some { s with calls := s.calls ++ [.threw] })) :=
  have hs := @run_reachable _ _ [.trigger, .checkTriggered 0, .checkRefCnt 0, .acquireScopedGuard]
    .init rfl
  ⟨_, hs, rfl, trigger_guard_laws hs⟩

end TriggerGuard

end LServer
