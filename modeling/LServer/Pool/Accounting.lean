import LServer.Pool.Holders
set_option autoImplicit false

namespace LServer

namespace Pool

variable {A : Type}

theorem tryBorrow_counts (p : Pool A) (id : POI) (a : A) :
    (p.tryBorrow id a).2.maxSize = p.maxSize ∧
      (p.tryBorrow id a).2.numItemsTotal + p.made.length =
        p.numItemsTotal + (p.tryBorrow id a).2.made.length ∧
      p.made.length ≤ (p.tryBorrow id a).2.made.length := by
  rcases hp : p.pool with _ | ⟨i, rest⟩
  · by_cases hr : p.maxSize = 0 ∨ p.numItemsInFlight < p.maxSize
    · rw [tryBorrow_of_room hp hr]
      simp only [List.length_append, List.length_singleton]
      exact ⟨trivial, by omega, by omega⟩
    · rw [tryBorrow_of_full hp hr]
      exact ⟨rfl, rfl, le_rfl⟩
  · rw [tryBorrow_of_cons hp]
    exact ⟨rfl, rfl, le_rfl⟩

theorem borrowCallback_counts {p q : Pool A} {id : POI} {a : A} {r : Option Nat}
    (h : p.borrowCallback id a = .ok (r, q)) :
    q.maxSize = p.maxSize ∧ q.numItemsTotal + p.made.length = p.numItemsTotal + q.made.length ∧
      p.made.length ≤ q.made.length := by
  have hc := tryBorrow_counts p id a
  unfold borrowCallback at h
  split at h
  · rename_i j q' hj; cases h; rwa [hj] at hc
  · rename_i q' hj
    rw [hj] at hc
    split at h <;> cases h
    exact hc

end Pool

namespace Held

variable {A : Type}

/-- One operation on a pool and its borrowers; a `put_back` only of an item held. -/
inductive Step : Held A → Held A → Prop
  | borrow (h : Held A) (id : POI) (b : A) : Step h (h.borrow id b).2
  | borrowCallback {h h' : Held A} {id : POI} {b : A} {r : Option Nat} :
      h.borrowCallback id b = .ok (r, h') → Step h h'
  | putBack {h : Held A} {i : Nat} : h.holder i ≠ none → Step h (h.putBack i)

theorem Reachable.step {a : A} {h h' : Held A} (hr : Reachable a h) (hs : Step h h') :
    Reachable a h' := by
  cases hs with
  | borrow => exact hr.borrow _ _
  | borrowCallback hs => exact hr.borrowCallback hs
  | putBack hh => exact hr.putBack hh

theorem Reachable.steps {a : A} {h h' : Held A} (hr : Reachable a h)
    (hs : Relation.ReflTransGen Step h h') : Reachable a h' := by
  induction hs with
  | refl => exact hr
  | tail _ hs ih => exact ih.step hs

/-! ### `num_items_total_` -/

theorem borrowCallback_counts {h h' : Held A} {id : POI} {b : A} {r : Option Nat}
    (hs : h.borrowCallback id b = .ok (r, h')) :
    h'.pool.maxSize = h.pool.maxSize ∧
      h'.pool.numItemsTotal + h.pool.made.length = h.pool.numItemsTotal + h'.pool.made.length ∧
      h.pool.made.length ≤ h'.pool.made.length := by
  have hp := borrowCallback_pool h id b
  rw [hs] at hp
  exact Pool.borrowCallback_counts hp.symm

theorem Step.counts {h h' : Held A} (hs : Step h h') :
    h'.pool.maxSize = h.pool.maxSize ∧
      h'.pool.numItemsTotal + h.pool.made.length = h.pool.numItemsTotal + h'.pool.made.length ∧
      h.pool.made.length ≤ h'.pool.made.length := by
  cases hs with
  | borrow id b =>
    have hb : (h.borrow id b).2.pool = (h.pool.tryBorrow id b).2 :=
      congrArg Prod.snd (borrow_pool h id b)
    rw [hb]
    exact Pool.tryBorrow_counts h.pool id b
  | borrowCallback hs => exact borrowCallback_counts hs
  | putBack _ =>
    rw [putBack_pool]
    unfold Pool.putBack Pool.insert
    split <;> exact ⟨rfl, rfl, le_rfl⟩

theorem steps_counts {h h' : Held A} (hs : Relation.ReflTransGen Step h h') :
    h'.pool.maxSize = h.pool.maxSize ∧
      h'.pool.numItemsTotal + h.pool.made.length = h.pool.numItemsTotal + h'.pool.made.length ∧
      h.pool.made.length ≤ h'.pool.made.length := by
  induction hs with
  | refl => exact ⟨rfl, rfl, le_rfl⟩
  | tail _ hs ih =>
    obtain ⟨hm, ht, hl⟩ := Step.counts hs
    exact ⟨hm.trans ih.1, by omega, ih.2.2.trans hl⟩

/-- An eager pool reports twice its items as `num_items_total_`, after every run. -/
theorem eager_pool_counts_items_twice {maxSize : Nat} (h0 : 0 < maxSize) {a : A} {p : Pool A}
    (hp : Pool.new maxSize true a = .ok p) {h : Held A}
    (hs : Relation.ReflTransGen Step ⟨p, fun _ => none, none⟩ h) :
    h.pool.made.length = maxSize ∧ h.pool.numItemsTotal = 2 * maxSize := by
  have hb := (reachable_inv ((Reachable.new hp).steps hs)).bounded
  rw [Pool.new_eager h0, Outcome.ok.injEq] at hp
  subst hp
  obtain ⟨hm, ht, hl⟩ := steps_counts hs
  simp only [List.length_replicate] at hm ht hl
  have := hb (hm ▸ h0)
  omega

theorem eager_pool_counts_items_twice_after_borrow :
    ∃ p : Pool Unit, Pool.new 1 true () = .ok p ∧
      (((⟨p, fun _ => none, none⟩ : Held Unit).borrow 7 ()).2.pool.made.length = 1 ∧
        ((⟨p, fun _ => none, none⟩ : Held Unit).borrow 7 ()).2.pool.numItemsTotal = 2 * 1) :=
  ⟨_, rfl, eager_pool_counts_items_twice Nat.one_pos rfl (.single (.borrow _ 7 ()))⟩

/-! ### `all_items_` and `recover` -/

theorem mem_recover {p : Pool A} {id : POI} {i : Nat} :
    i ∈ p.recover id ↔ i < p.made.length ∧ p.allItems i = id := by
  simp [Pool.recover]

/-- A `put_back` to a waiter leaves the item tagged with its old identity. -/
theorem handoff_keeps_previous_identity {a : A} {h : Held A} (hr : Reachable a h) {i : Nat}
    {w : POI} (hh : h.holder i ≠ none) (hw : h.waiter = some w) (htag : h.pool.allItems i ≠ w) :
    (h.putBack i).holder i = some w ∧ i ∉ (h.putBack i).pool.recover w ∧
      i ∈ (h.putBack i).pool.recover (h.pool.allItems i) := by
  have hi := reachable_inv hr
  have hc : h.pool.callbackActive = true := by rw [hi.waiting, hw]; rfl
  rw [putBack_of_waiting hc, mem_recover, mem_recover]
  exact ⟨by simp [hw], fun h' => htag h'.2, hi.lt_of_held hh, rfl⟩

theorem handoff_keeps_previous_identity_of_two :
    ∃ h : Held Unit, Reachable () h ∧ h.holder 0 = some 1 ∧ h.waiter = some 2 ∧
      h.pool.allItems 0 = 1 ∧
      ((h.putBack 0).holder 0 = some 2 ∧ 0 ∉ (h.putBack 0).pool.recover 2 ∧
        0 ∈ (h.putBack 0).pool.recover (h.pool.allItems 0)) :=
  have h₂ := @Reachable.borrowCallback Unit () _ _ 2 () _
    ((@Reachable.new Unit () 1 false _ rfl).borrow 1 ()) rfl
  ⟨_, h₂, rfl, rfl, rfl, handoff_keeps_previous_identity h₂ (by decide) rfl (by decide)⟩

/-! ### `put_back` then `borrow` -/

/-- With no waiter, `put_back(x)` then `borrow(id)` returns `x` and restores the pool. -/
theorem put_back_then_borrow {a : A} {h : Held A} (hr : Reachable a h) (hw : h.waiter = none)
    {x : Nat} (hx : h.holder x ≠ none) (id : POI) (b : A) :
    (h.putBack x).borrow id b = (some x,
      ⟨{ h.pool with allItems := Function.update h.pool.allItems x id },
        Function.update h.holder x (some id), none⟩) := by
  have hi := reachable_inv hr
  have hc : h.pool.callbackActive = false := by rw [hi.waiting, hw]; rfl
  rw [putBack_of_free hc]
  simp only [Held.borrow, Pool.borrow, Pool.tryBorrow, Function.update_idem, hw,
    Nat.sub_add_cancel (hi.inFlight_pos hx)]

theorem put_back_then_borrow_of_one :
    ∃ h : Held Unit, Reachable () h ∧ h.waiter = none ∧ h.holder 0 = some 1 ∧
      (h.putBack 0).borrow 5 () = (some 0,
        ⟨{ h.pool with allItems := Function.update h.pool.allItems 0 5 },
          Function.update h.holder 0 (some 5), none⟩) :=
  have h₁ := (@Reachable.new Unit () 2 false _ rfl).borrow 1 ()
  ⟨_, h₁, rfl, rfl, put_back_then_borrow h₁ rfl (by decide) 5 ()⟩

/-! ### The items each identity holds -/

theorem countP_update {β : Type} (q : β → Bool) {l : List Nat} (hl : l.Nodup) {i : Nat}
    (hi : i ∈ l) (f : Nat → β) (v : β) :
    l.countP (fun j => q (Function.update f i v j)) + (if q (f i) then 1 else 0) =
      l.countP (fun j => q (f j)) + (if q v then 1 else 0) := by
  induction l with
  | nil => cases hi
  | cons a l ih =>
    obtain ⟨ha, hl⟩ := List.nodup_cons.1 hl
    rw [List.countP_cons, List.countP_cons]
    by_cases hai : a = i
    · subst hai
      have hrest : l.countP (fun j => q (Function.update f a v j)) = l.countP (fun j => q (f j)) :=
        List.countP_congr fun j hj => by rw [Function.update_noteq (ne_of_mem_of_not_mem hj ha)]
      rw [hrest, Function.update_same]
      omega
    · have := ih hl ((List.mem_cons.1 hi).resolve_left (Ne.symm hai))
      rw [Function.update_noteq hai]
      omega

def heldBy (h : Held A) (id : POI) : Nat :=
  (List.range h.pool.made.length).countP fun i => h.holder i = some id

theorem Inv.countP_range_holder {h : Held A} (hi : h.Inv) (id : POI) {n : Nat}
    (hn : h.pool.made.length ≤ n) :
    (List.range n).countP (fun i => h.holder i = some id) = h.heldBy id := by
  induction n, hn using Nat.le_induction with
  | base => rfl
  | succ n hn ih => simp [List.range_succ, List.countP_append, ih, hi.unmade n hn]

theorem borrow_holder {h : Held A} {id : POI} {b : A} {i : Nat}
    (hb : (h.borrow id b).1 = some i) :
    (h.borrow id b).2.holder = Function.update h.holder i (some id) := by
  unfold Held.borrow at hb ⊢
  split <;> simp_all

theorem borrow_of_none {h : Held A} {id : POI} {b : A} (hb : (h.borrow id b).1 = none) :
    (h.borrow id b).2 = h := by
  unfold Held.borrow at hb ⊢
  split
  · simp_all
  · rename_i q hq
    rcases hp : h.pool.pool with _ | ⟨i, rest⟩
    · by_cases hr : h.pool.maxSize = 0 ∨ h.pool.numItemsInFlight < h.pool.maxSize
      · simp [Pool.borrow, Pool.tryBorrow_of_room hp hr] at hq
      · simp only [Pool.borrow, Pool.tryBorrow_of_full hp hr, Prod.mk.injEq] at hq
        rw [← hq.2]
    · simp [Pool.borrow, Pool.tryBorrow_of_cons hp] at hq

theorem borrow_isSome_of_unbounded (h : Held A) (id : POI) (b : A) (hm : h.pool.maxSize = 0) :
    (h.borrow id b).1.isSome := by
  rw [congrArg Prod.fst (borrow_pool h id b)]
  exact Pool.tryBorrow_isSome_of_unbounded h.pool id b hm

theorem borrow_waiter (h : Held A) (id : POI) (b : A) : (h.borrow id b).2.waiter = h.waiter := by
  unfold Held.borrow
  split <;> rfl

theorem Inv.heldBy_borrow {h : Held A} (hi : h.Inv) {id : POI} {b : A} {i : Nat}
    (hb : (h.borrow id b).1 = some i) (k : POI) :
    (h.borrow id b).2.heldBy k = h.heldBy k + if id = k then 1 else 0 := by
  have hfree : h.holder i = none :=
    hi.tryBorrow_free ((congrArg Prod.fst (borrow_pool h id b)).symm.trans hb)
  have hh := borrow_holder hb
  have hlt : i < (h.borrow id b).2.pool.made.length :=
    (hi.borrow id b).lt_of_held (by rw [hh, Function.update_same]; simp)
  have hle : h.pool.made.length ≤ (h.borrow id b).2.pool.made.length :=
    (Step.counts (.borrow h id b)).2.2
  have := countP_update (fun o => decide (o = some k)) (List.nodup_range _)
    (List.mem_range.2 hlt) h.holder (some id)
  rw [hi.countP_range_holder k hle] at this
  simp only [heldBy, hh]
  simp only [hfree, Option.some.injEq] at this
  simpa using this

theorem Inv.heldBy_putBack {h : Held A} (hi : h.Inv) (hw : h.waiter = none) {i : Nat}
    {id : POI} (hh : h.holder i = some id) (k : POI) :
    (h.putBack i).heldBy k + (if id = k then 1 else 0) = h.heldBy k := by
  have hc : h.pool.callbackActive = false := by rw [hi.waiting, hw]; rfl
  have := countP_update (fun o => decide (o = some k)) (List.nodup_range _)
    (List.mem_range.2 (hi.lt_of_held (by rw [hh]; simp))) h.holder none
  simp only [hh, Option.some.injEq] at this
  simp only [heldBy, putBack_of_free hc]
  simpa using this

theorem putBack_holder_of_ne (h : Held A) {i j : Nat} (hne : j ≠ i) :
    (h.putBack i).holder j = h.holder j := by
  unfold Held.putBack
  split <;> exact Function.update_noteq hne _ _

theorem Inv.heldBy_pos_iff {h : Held A} (hi : h.Inv) (id : POI) :
    0 < h.heldBy id ↔ ∃ i, h.holder i = some id := by
  simp only [heldBy, List.countP_pos_iff, List.mem_range, decide_eq_true_eq]
  exact ⟨fun ⟨i, _, hh⟩ => ⟨i, hh⟩, fun ⟨i, hh⟩ => ⟨i, hi.lt_of_held (by rw [hh]; simp), hh⟩⟩

end Held

end LServer
