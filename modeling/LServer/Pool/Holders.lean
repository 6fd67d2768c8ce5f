import LServer.Pool.Basic
import Mathlib.Data.List.Nodup

/-!
A pool with its borrowers. Who holds an item is not data of `Pool`: `holder i` and `waiter` are
ghost fields kept beside the pool's operations, and an item goes back only from its holder.
-/

set_option autoImplicit false

namespace LServer

theorem length_lt_of_not_mem {l : List Nat} {n i : Nat} (hnd : l.Nodup)
    (hb : ∀ x ∈ l, x < n) (hi : i < n) (hm : i ∉ l) : l.length < n := by
  have hs : l ⊆ (List.range n).erase i := fun x hx =>
    (List.mem_erase_of_ne (by rintro rfl; exact hm hx)).2 (List.mem_range.2 (hb x hx))
  have hl := (List.subperm_of_subset hnd hs).length_le
  rw [List.length_erase_of_mem (List.mem_range.2 hi), List.length_range] at hl
  omega

/-- A pool and who holds its items. -/
structure Held (A : Type) where
  pool : Pool A
  holder : Nat → Option POI
  waiter : Option POI

namespace Held

variable {A : Type}

def borrow (h : Held A) (id : POI) (a : A) : Option Nat × Held A :=
  match h.pool.borrow id a with
  | (some i, q) => (some i, ⟨q, Function.update h.holder i (some id), h.waiter⟩)
  | (none, q) => (none, { h with pool := q })

def borrowCallback (h : Held A) (id : POI) (a : A) : Outcome (Option Nat × Held A) :=
  (fun r => match r with
    | (some i, q) => (some i, ⟨q, Function.update h.holder i (some id), h.waiter⟩)
    | (none, q) => (none, ⟨q, h.holder, some id⟩)) <$> h.pool.borrowCallback id a

def putBack (h : Held A) (i : Nat) : Held A :=
  match h.pool.putBack i with
  | (q, some _) => ⟨q, Function.update h.holder i h.waiter, none⟩
  | (q, none) => ⟨q, Function.update h.holder i none, h.waiter⟩

inductive Reachable (a : A) : Held A → Prop
  | new {maxSize : Nat} {eager : Bool} {p : Pool A} :
      Pool.new maxSize eager a = .ok p → Reachable a ⟨p, fun _ => none, none⟩
  | borrow {h : Held A} (id : POI) (b : A) : Reachable a h → Reachable a (h.borrow id b).2
  | borrowCallback {h h' : Held A} {id : POI} {b : A} {r : Option Nat} :
      Reachable a h → h.borrowCallback id b = .ok (r, h') → Reachable a h'
  | putBack {h : Held A} {i : Nat} : Reachable a h → h.holder i ≠ none → Reachable a (h.putBack i)

/-- The pool's representation invariant, read against the holders. -/
structure Inv (h : Held A) : Prop where
  nodup : h.pool.pool.Nodup
  free_iff : ∀ i, i ∈ h.pool.pool ↔ i < h.pool.made.length ∧ h.holder i = none
  unmade : ∀ i, h.pool.made.length ≤ i → h.holder i = none
  inFlight : h.pool.numItemsInFlight + h.pool.pool.length = h.pool.made.length
  bounded : 0 < h.pool.maxSize → h.pool.made.length ≤ h.pool.maxSize
  waiting : h.pool.callbackActive = h.waiter.isSome
  waiting_full : h.pool.callbackActive = true →
    h.pool.pool = [] ∧ 0 < h.pool.maxSize ∧ h.pool.maxSize ≤ h.pool.numItemsInFlight
  free_tag : ∀ i ∈ h.pool.pool, h.pool.allItems i = poiInvalid

section Steps

variable {h : Held A} (hi : h.Inv)
include hi

theorem Inv.lt_of_mem {i : Nat} (hm : i ∈ h.pool.pool) : i < h.pool.made.length :=
  ((hi.free_iff i).1 hm).1

theorem Inv.lt_of_held {i : Nat} (hh : h.holder i ≠ none) : i < h.pool.made.length :=
  Nat.lt_of_not_le fun hle => hh (hi.unmade i hle)

theorem Inv.pop {i : Nat} {rest : List Nat} (hp : h.pool.pool = i :: rest) (id : POI) :
    Inv ⟨{ h.pool with
      pool := rest
      numItemsInFlight := h.pool.numItemsInFlight + 1
      allItems := Function.update h.pool.allItems i id },
      Function.update h.holder i (some id), h.waiter⟩ := by
  have hnd := hi.nodup
  rw [hp] at hnd
  have hfree : ∀ j, j ≠ i → (j ∈ rest ↔ j ∈ h.pool.pool) := fun j hj => by simp [hp, hj]
  have hc : h.pool.callbackActive = false := by
    cases hca : h.pool.callbackActive
    · rfl
    · simp [(hi.waiting_full hca).1] at hp
  refine ⟨(List.nodup_cons.1 hnd).2, fun j => ?_, fun j hj => ?_, ?_, hi.bounded, hi.waiting,
    fun e => absurd (hc.symm.trans e) (by decide), fun j hj => ?_⟩
  · dsimp only
    by_cases hj : j = i
    · subst hj; simp [(List.nodup_cons.1 hnd).1]
    · rw [Function.update_noteq hj, hfree j hj]; exact hi.free_iff j
  · have := hi.lt_of_mem (hp ▸ List.mem_cons_self i rest)
    dsimp only at hj ⊢
    rw [Function.update_noteq (by omega)]; exact hi.unmade j hj
  · have := hi.inFlight; dsimp only; rw [hp, List.length_cons] at this; omega
  · dsimp only at hj ⊢
    have hji : j ≠ i := by rintro rfl; exact (List.nodup_cons.1 hnd).1 hj
    rw [Function.update_noteq hji]; exact hi.free_tag j ((hfree j hji).1 hj)

theorem Inv.create (hp : h.pool.pool = [])
    (hr : h.pool.maxSize = 0 ∨ h.pool.numItemsInFlight < h.pool.maxSize) (id : POI) (a : A) :
    Inv ⟨{ h.pool with
      made := h.pool.made ++ [a]
      allItems := Function.update h.pool.allItems h.pool.made.length id
      numItemsInFlight := h.pool.numItemsInFlight + 1
      numItemsTotal := h.pool.numItemsTotal + 1 },
      Function.update h.holder h.pool.made.length (some id), h.waiter⟩ := by
  have hn := hi.inFlight
  rw [hp, List.length_nil, Nat.add_zero] at hn
  have hc : h.pool.callbackActive = false := by
    cases hca : h.pool.callbackActive
    · rfl
    · have := hi.waiting_full hca; omega
  refine ⟨by simp [hp], fun j => ?_, fun j hj => ?_, ?_, fun hm => ?_, hi.waiting,
    fun e => absurd (hc.symm.trans e) (by decide), fun j hj => by simp [hp] at hj⟩
  · simp only [hp, List.not_mem_nil, false_iff, List.length_append, List.length_singleton]
    rintro ⟨hj, hh⟩
    by_cases he : j = h.pool.made.length
    · subst he; simp at hh
    · rw [Function.update_noteq he] at hh
      exact absurd ((hi.free_iff j).2 ⟨by omega, hh⟩) (by simp [hp])
  · simp only [List.length_append, List.length_singleton] at hj ⊢
    rw [Function.update_noteq (by omega)]; exact hi.unmade j (by omega)
  · simp [hp, hn]
  · dsimp only at hm ⊢; rw [List.length_append, List.length_singleton]; omega

theorem Inv.wait (hp : h.pool.pool = [])
    (hr : ¬(h.pool.maxSize = 0 ∨ h.pool.numItemsInFlight < h.pool.maxSize)) (id : POI) :
    Inv ⟨{ h.pool with callbackActive := true }, h.holder, some id⟩ :=
  ⟨hi.nodup, hi.free_iff, hi.unmade, hi.inFlight, hi.bounded, rfl,
    fun _ => ⟨hp, Nat.pos_of_ne_zero fun e => hr (.inl e), Nat.le_of_not_lt fun e => hr (.inr e)⟩,
    hi.free_tag⟩

theorem Inv.handOff {i : Nat} (hh : h.holder i ≠ none) (hc : h.pool.callbackActive = true) :
    Inv ⟨{ h.pool with callbackActive := false }, Function.update h.holder i h.waiter, none⟩ := by
  have hw : h.waiter ≠ none := by
    intro e; have := hi.waiting; rw [hc, e] at this; simp at this
  refine ⟨hi.nodup, fun j => ?_, fun j hj => ?_, hi.inFlight, hi.bounded, rfl,
    fun e => (Bool.false_ne_true e).elim, hi.free_tag⟩
  · dsimp only
    by_cases hj : j = i
    · subst hj
      simp only [Function.update_same, hw, and_false, iff_false]
      rw [hi.free_iff j]; exact fun h' => hh h'.2
    · rw [Function.update_noteq hj]; exact hi.free_iff j
  · have := hi.lt_of_held hh
    dsimp only at hj ⊢
    rw [Function.update_noteq (by omega)]; exact hi.unmade j hj

theorem Inv.push {i : Nat} (hh : h.holder i ≠ none) (hc : h.pool.callbackActive = false) :
    Inv ⟨{ h.pool with
      pool := i :: h.pool.pool
      allItems := Function.update h.pool.allItems i poiInvalid
      numItemsInFlight := h.pool.numItemsInFlight - 1 },
      Function.update h.holder i none, h.waiter⟩ := by
  have hlt := hi.lt_of_held hh
  have hni : i ∉ h.pool.pool := fun hm => hh ((hi.free_iff i).1 hm).2
  have hlen := length_lt_of_not_mem hi.nodup (fun x => hi.lt_of_mem) hlt hni
  refine ⟨List.nodup_cons.2 ⟨hni, hi.nodup⟩, fun j => ?_, fun j hj => ?_, ?_, hi.bounded,
    hc.trans (by rw [← hc, hi.waiting]), fun e => absurd (hc.symm.trans e) (by decide),
    fun j hj => ?_⟩
  · dsimp only
    by_cases hj : j = i
    · subst hj; simp [hlt]
    · rw [Function.update_noteq hj, List.mem_cons, hi.free_iff j]; simp [hj]
  · dsimp only at hj ⊢
    rw [Function.update_noteq (by omega)]; exact hi.unmade j hj
  · have := hi.inFlight; dsimp only; rw [List.length_cons]; omega
  · dsimp only at hj ⊢
    by_cases hji : j = i
    · subst hji; simp
    · rw [Function.update_noteq hji]
      exact hi.free_tag j ((List.mem_cons.1 hj).resolve_left hji)

end Steps

variable {h : Held A}

theorem Inv.borrow (hi : h.Inv) (id : POI) (b : A) : (h.borrow id b).2.Inv := by
  rcases hp : h.pool.pool with _ | ⟨i, rest⟩
  · by_cases hr : h.pool.maxSize = 0 ∨ h.pool.numItemsInFlight < h.pool.maxSize
    · simp only [Held.borrow, Pool.borrow, Pool.tryBorrow_of_room hp hr]
      exact hi.create hp hr id b
    · simp only [Held.borrow, Pool.borrow, Pool.tryBorrow_of_full hp hr]
      exact hi
  · simp only [Held.borrow, Pool.borrow, Pool.tryBorrow_of_cons hp]
    exact hi.pop hp id

theorem Inv.borrowCallback (hi : h.Inv) {id : POI} {b : A} {r : Option Nat} {h' : Held A}
    (hs : h.borrowCallback id b = .ok (r, h')) : h'.Inv := by
  unfold Held.borrowCallback Pool.borrowCallback at hs
  rcases hp : h.pool.pool with _ | ⟨i, rest⟩
  · by_cases hr : h.pool.maxSize = 0 ∨ h.pool.numItemsInFlight < h.pool.maxSize
    · simp only [Pool.tryBorrow_of_room hp hr, Outcome.map_ok, Outcome.ok.injEq, Prod.mk.injEq] at hs
      exact hs.2 ▸ hi.create hp hr id b
    · rw [Pool.tryBorrow_of_full hp hr] at hs
      cases hc : h.pool.callbackActive
      · simp only [hc, Bool.false_eq_true, if_false, Outcome.map_ok, Outcome.ok.injEq,
          Prod.mk.injEq] at hs
        exact hs.2 ▸ hi.wait hp hr id
      · simp [hc] at hs
  · simp only [Pool.tryBorrow_of_cons hp, Outcome.map_ok, Outcome.ok.injEq, Prod.mk.injEq] at hs
    exact hs.2 ▸ hi.pop hp id

theorem Inv.putBack (hi : h.Inv) {i : Nat} (hh : h.holder i ≠ none) : (h.putBack i).Inv := by
  unfold Held.putBack Pool.putBack Pool.insert
  by_cases hc : h.pool.callbackActive
  · rw [if_pos hc]; exact hi.handOff hh hc
  · rw [if_neg hc]; exact hi.push hh (Bool.eq_false_iff.2 hc)

theorem new_inv {maxSize : Nat} {eager : Bool} {a : A} {p : Pool A}
    (hp : Pool.new maxSize eager a = .ok p) : Inv ⟨p, fun _ => none, none⟩ := by
  cases eager
  · simp only [Pool.new, Bool.false_eq_true, and_false, if_false, Outcome.ok.injEq] at hp
    subst hp
    exact ⟨List.nodup_nil, by simp [Pool.empty], fun _ _ => rfl, rfl, fun _ => Nat.zero_le _,
      rfl, fun e => (Bool.false_ne_true e).elim, by simp [Pool.empty]⟩
  · by_cases h0 : maxSize = 0
    · simp [Pool.new, h0] at hp
    · rw [Pool.new_eager (Nat.pos_of_ne_zero h0)] at hp
      cases hp
      refine ⟨List.nodup_reverse.2 (List.nodup_range _), by simp, fun _ _ => rfl, by simp,
        by simp, rfl, fun e => (Bool.false_ne_true e).elim, fun j hj => ?_⟩
      simp only [List.mem_reverse, List.mem_range] at hj
      simp [hj]

theorem Inv.tryBorrow_free (hi : h.Inv) {id : POI} {b : A} {i : Nat}
    (hb : (h.pool.tryBorrow id b).1 = some i) : h.holder i = none := by
  rcases hp : h.pool.pool with _ | ⟨j, rest⟩
  · by_cases hr : h.pool.maxSize = 0 ∨ h.pool.numItemsInFlight < h.pool.maxSize
    · rw [Pool.tryBorrow_of_room hp hr, Option.some_inj] at hb
      exact hi.unmade i hb.le
    · rw [Pool.tryBorrow_of_full hp hr] at hb; cases hb
  · rw [Pool.tryBorrow_of_cons hp, Option.some_inj] at hb
    subst hb
    exact ((hi.free_iff j).1 (hp ▸ List.mem_cons_self j rest)).2

theorem borrow_pool (h : Held A) (id : POI) (b : A) :
    ((h.borrow id b).1, (h.borrow id b).2.pool) = h.pool.borrow id b := by
  unfold Held.borrow
  split <;> simp_all

theorem borrowCallback_pool (h : Held A) (id : POI) (b : A) :
    (fun r => (r.1, r.2.pool)) <$> h.borrowCallback id b = h.pool.borrowCallback id b := by
  unfold Held.borrowCallback
  rcases h.pool.borrowCallback id b with ⟨⟨_ | i, q⟩⟩ | _ | _ | _ <;> rfl

theorem putBack_pool (h : Held A) (i : Nat) : (h.putBack i).pool = (h.pool.putBack i).1 := by
  unfold Held.putBack
  split <;> simp_all

theorem reachable_inv {a : A} (hr : Reachable a h) : h.Inv := by
  induction hr with
  | new hp => exact new_inv hp
  | borrow id b _ ih => exact ih.borrow id b
  | borrowCallback _ hs ih => exact ih.borrowCallback hs
  | putBack _ hh ih => exact ih.putBack hh

theorem putBack_of_waiting (hc : h.pool.callbackActive = true) (i : Nat) :
    h.putBack i = ⟨{ h.pool with callbackActive := false }, Function.update h.holder i h.waiter, none⟩ := by
  simp only [Held.putBack, Pool.putBack, Pool.insert, if_pos hc]

theorem putBack_of_free (hc : h.pool.callbackActive = false) (i : Nat) :
    h.putBack i = ⟨{ h.pool with
      pool := i :: h.pool.pool
      allItems := Function.update h.pool.allItems i poiInvalid
      numItemsInFlight := h.pool.numItemsInFlight - 1 }, Function.update h.holder i none, h.waiter⟩ := by
  simp only [Held.putBack, Pool.putBack, Pool.insert, hc, Bool.false_eq_true, if_false]

theorem Inv.inFlight_pos (hi : h.Inv) {i : Nat} (hh : h.holder i ≠ none) :
    0 < h.pool.numItemsInFlight := by
  have := length_lt_of_not_mem hi.nodup (fun _ => hi.lt_of_mem) (hi.lt_of_held hh)
    fun hm => hh ((hi.free_iff i).1 hm).2
  have := hi.inFlight
  omega

theorem Inv.exists_held (hi : h.Inv) (hp : 0 < h.pool.numItemsInFlight) : ∃ i, h.holder i ≠ none := by
  by_contra hn
  push_neg at hn
  have hsub : List.range h.pool.made.length ⊆ h.pool.pool := fun i hm =>
    (hi.free_iff i).2 ⟨List.mem_range.1 hm, hn i⟩
  have hle := (List.subperm_of_subset (List.nodup_range _) hsub).length_le
  have := hi.inFlight
  rw [List.length_range] at hle
  omega

theorem Inv.borrowCallback_of_waiting (hi : h.Inv) (hc : h.pool.callbackActive = true) (id : POI)
    (b : A) : h.borrowCallback id b = .thrown := by
  obtain ⟨hp, h0, hm⟩ := hi.waiting_full hc
  simp only [Held.borrowCallback, Pool.borrowCallback, Pool.tryBorrow_of_full hp (by omega), hc,
    if_true, Outcome.map_thrown]

/-- The representation invariant of `Pool<T>`, read over every run. -/
theorem pool_representation {a : A} (hr : Reachable a h) :
    h.pool.pool.Nodup ∧
    (∀ i < h.pool.made.length, i ∈ h.pool.pool ↔ h.holder i = none) ∧
    (∀ i ∈ h.pool.pool, i < h.pool.made.length) ∧
    (∀ (id : POI) (b : A) (i : Nat), (h.borrow id b).1 = some i → h.holder i = none) ∧
    (∀ (id : POI) (b : A) (i : Nat) (h' : Held A),
      h.borrowCallback id b = .ok (some i, h') → h.holder i = none) ∧
    h.pool.numItemsInFlight = h.pool.made.length - h.pool.pool.length ∧
    (0 < h.pool.maxSize → h.pool.made.length ≤ h.pool.maxSize) ∧
    h.pool.callbackActive = h.waiter.isSome ∧
    (∀ w, h.waiter = some w → h.pool.pool = [] ∧
      (∀ i, (h.putBack i).holder i = some w ∧ (h.putBack i).pool.pool = h.pool.pool ∧
        (h.putBack i).waiter = none) ∧
      ∀ (id : POI) (b : A), h.borrowCallback id b = .thrown) := by
  have hi := reachable_inv hr
  refine ⟨hi.nodup, fun i hl => by rw [hi.free_iff]; exact and_iff_right hl, fun i => hi.lt_of_mem,
    fun id b i hb => @Inv.tryBorrow_free _ _ hi id b i
      ((congrArg Prod.fst (borrow_pool h id b)).symm.trans hb),
    fun id b i h' hb => @Inv.tryBorrow_free _ _ hi id b i (Pool.borrowCallback_eq_some (by
      rw [← borrowCallback_pool, hb]; rfl)),
    by have := hi.inFlight; omega, hi.bounded, hi.waiting, fun w hw => ?_⟩
  have hc : h.pool.callbackActive = true := by rw [hi.waiting, hw]; rfl
  exact ⟨(hi.waiting_full hc).1, fun i => by simp [putBack_of_waiting hc, hw],
    hi.borrowCallback_of_waiting hc⟩

theorem pool_representation_with_waiter :
    ∃ h : Held Unit, Reachable () h ∧ h.waiter = some 2 ∧
    (h.pool.pool.Nodup ∧
    (∀ i < h.pool.made.length, i ∈ h.pool.pool ↔ h.holder i = none) ∧
    (∀ i ∈ h.pool.pool, i < h.pool.made.length) ∧
    (∀ (id : POI) (b : Unit) (i : Nat), (h.borrow id b).1 = some i → h.holder i = none) ∧
    (∀ (id : POI) (b : Unit) (i : Nat) (h' : Held Unit),
      h.borrowCallback id b = .ok (some i, h') → h.holder i = none) ∧
    h.pool.numItemsInFlight = h.pool.made.length - h.pool.pool.length ∧
    (0 < h.pool.maxSize → h.pool.made.length ≤ h.pool.maxSize) ∧
    h.pool.callbackActive = h.waiter.isSome ∧
    (∀ w, h.waiter = some w → h.pool.pool = [] ∧
      (∀ i, (h.putBack i).holder i = some w ∧ (h.putBack i).pool.pool = h.pool.pool ∧
        (h.putBack i).waiter = none) ∧
      ∀ (id : POI) (b : Unit), h.borrowCallback id b = .thrown)) :=
  have h₂ := @Reachable.borrowCallback Unit () _ _ 2 () _
    ((@Reachable.new Unit () 1 false _ rfl).borrow 1 ()) rfl
  ⟨_, h₂, rfl, pool_representation h₂⟩

end Held

end LServer
