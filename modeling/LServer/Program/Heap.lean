import LServer.Program.Op

/-!
libstdc++'s heap algorithms keep `instructions_` a heap under `OpCompare` (`Heap.IsHeap`), so
the order `top()` and `pop()` serve it in is sorted by trigger point. The sift loops move a hole
through the vector; their invariants follow the sifts of a timer heap.
-/

set_option autoImplicit false

namespace LServer

namespace Heap

def key (o : OpPtr) : Nat := (o.map BaseOp.execPoint).getD 0

def keyAt (v : List OpPtr) (i : Nat) : Nat := key (v.getD i none)

def IsChild (c p : Nat) : Prop := 0 < c ∧ (c - 1) / 2 = p

def NoNull (v : List OpPtr) : Prop := ∀ x ∈ v, x ≠ none

/-- Every parent and child pair below `len` is in order. -/
def IsHeap (v : List OpPtr) (len : Nat) : Prop :=
  ∀ i, 0 < i → i < len → keyAt v ((i - 1) / 2) ≤ keyAt v i

def OrderedExcept (v : List OpPtr) (len hole : Nat) : Prop :=
  ∀ i, 0 < i → i < len → i ≠ hole → (i - 1) / 2 ≠ hole → keyAt v ((i - 1) / 2) ≤ keyAt v i

/-- What the descent of `__adjust_heap` keeps. -/
structure DownOrder (v : List OpPtr) (len hole : Nat) : Prop where
  except : OrderedExcept v len hole
  grand : hole ≠ 0 → ∀ c, IsChild c hole → c < len → keyAt v ((hole - 1) / 2) ≤ keyAt v c

/-- What `__push_heap` keeps besides: `value` at or before the hole's children. -/
structure UpOrder (v : List OpPtr) (len hole : Nat) (value : OpPtr) extends
    DownOrder v len hole : Prop where
  below : ∀ c, IsChild c hole → c < len → key value ≤ keyAt v c

section Vector
variable {v : List OpPtr} {i j : Nat}

theorem getD_mem (h : i < v.length) : v.getD i none ∈ v := by
  rw [List.getD_eq_getElem?_getD, List.getElem?_eq_getElem h]
  exact List.getElem_mem h

@[simp] theorem keyAt_set_self (x : OpPtr) (h : i < v.length) : keyAt (v.set i x) i = key x := by
  simp [keyAt, List.getD_eq_getElem?_getD, List.getElem?_set_self h]

@[simp] theorem keyAt_set_ne (x : OpPtr) (h : i ≠ j) : keyAt (v.set i x) j = keyAt v j := by
  simp [keyAt, List.getD_eq_getElem?_getD, List.getElem?_set_ne h]

theorem NoNull.set (hn : NoNull v) {x : OpPtr} (hx : x ≠ none) : NoNull (v.set i x) :=
  fun _ hy => (List.mem_or_eq_of_mem_set hy).elim (hn _) fun e => e ▸ hx

theorem NoNull.getD (hn : NoNull v) (h : i < v.length) : v.getD i none ≠ none := hn _ (getD_mem h)

end Vector

theorem opPtrCompare_eq {a b : OpPtr} (ha : a ≠ none) (hb : b ≠ none) :
    opPtrCompare a b = .ok (decide (key b < key a)) := by
  obtain ⟨x, rfl⟩ := Option.ne_none_iff_exists'.1 ha
  obtain ⟨y, rfl⟩ := Option.ne_none_iff_exists'.1 hb
  rfl

theorem opPtrCompare_none (a : OpPtr) : opPtrCompare a none = .undefined := by
  cases a <;> rfl

theorem IsHeap.root_le {v : List OpPtr} {len : Nat} (hh : IsHeap v len) :
    ∀ i, i < len → keyAt v 0 ≤ keyAt v i := by
  intro i
  induction i using Nat.strong_induction_on with
  | _ i ih =>
    intro hi
    rcases Nat.eq_zero_or_pos i with rfl | h0
    · exact le_rfl
    · exact (ih _ (by omega) (by omega)).trans (hh i h0 hi)

/-! ### `__push_heap` -/

section Up
variable {v : List OpPtr} {len hole : Nat} {value : OpPtr}

theorem UpOrder.move (o : UpOrder v len hole value) (h0 : 0 < hole) (hl : hole < len)
    (hv : len ≤ v.length) (hb : key value < keyAt v ((hole - 1) / 2)) :
    UpOrder (v.set hole (v.getD ((hole - 1) / 2) none)) len ((hole - 1) / 2) value := by
  have hpq : (hole - 1) / 2 ≠ hole := by omega
  have hp : ∀ c, IsChild c ((hole - 1) / 2) → c < len → c ≠ hole →
      keyAt v ((hole - 1) / 2) ≤ keyAt v c := fun c hc hcl hch =>
    hc.2 ▸ o.except c hc.1 hcl hch (by rw [hc.2]; exact hpq)
  refine ⟨⟨fun i hi0 hil hip hpp => ?_, fun hq0 c hc hcl => ?_⟩, fun c hc hcl => ?_⟩
  · have hih : i ≠ hole := fun e => hpp (e ▸ rfl)
    rw [keyAt_set_ne _ (Ne.symm hih)]
    by_cases hph : (i - 1) / 2 = hole
    · rw [hph, keyAt_set_self _ (by omega)]
      exact o.grand (by omega) i ⟨hi0, hph⟩ hil
    · rw [keyAt_set_ne _ (Ne.symm hph)]
      exact o.except i hi0 hil hih hph
  · have hgp : keyAt v (((hole - 1) / 2 - 1) / 2) ≤ keyAt v ((hole - 1) / 2) :=
      o.except _ (by omega) (by omega) hpq (by omega)
    rw [keyAt_set_ne _ (by omega)]
    by_cases hch : c = hole
    · rw [hch, keyAt_set_self _ (by omega)]
      exact hgp
    · rw [keyAt_set_ne _ (Ne.symm hch)]
      exact hgp.trans (hp c hc hcl hch)
  · by_cases hch : c = hole
    · rw [hch, keyAt_set_self _ (by omega)]
      exact hb.le
    · rw [keyAt_set_ne _ (Ne.symm hch)]
      exact hb.le.trans (hp c hc hcl hch)

theorem UpOrder.finish (o : UpOrder v len hole value) (hl : hole < v.length)
    (hstop : 0 < hole → keyAt v ((hole - 1) / 2) ≤ key value) : IsHeap (v.set hole value) len := by
  intro i hi0 hil
  by_cases hih : i = hole
  · subst hih
    rw [keyAt_set_ne _ (by omega), keyAt_set_self _ hl]
    exact hstop hi0
  · rw [keyAt_set_ne _ (Ne.symm hih)]
    by_cases hph : (i - 1) / 2 = hole
    · rw [hph, keyAt_set_self _ hl]
      exact o.below i ⟨hi0, hph⟩ hil
    · rw [keyAt_set_ne _ (Ne.symm hph)]
      exact o.except i hi0 hil hih hph

theorem pushHeapLoop_ok {n : Nat} (hf : hole < n) (hl : hole < len) (hv : len ≤ v.length)
    (hn : NoNull v) (hval : value ≠ none) (o : UpOrder v len hole value) :
    ∃ w, pushHeapLoop n v hole 0 value = .ok w ∧ w.length = v.length ∧ IsHeap w len ∧
      ∀ x ∈ w, x ∈ v ∨ x = value := by
  induction n generalizing v hole with
  | zero => omega
  | succ n ih =>
    have hfill : ∀ x ∈ v.set hole value, x ∈ v ∨ x = value := fun _ => List.mem_or_eq_of_mem_set
    by_cases h0 : 0 < hole
    · have hpn := hn.getD (i := (hole - 1) / 2) (by omega)
      by_cases hb : key value < keyAt v ((hole - 1) / 2)
      · obtain ⟨w, hw, hlen, hh, hm⟩ := ih (by omega) (by omega) (by simpa using hv)
          (hn.set hpn) (o.move h0 hl hv hb)
        refine ⟨w, ?_, by simpa using hlen, hh, fun x hx => ?_⟩
        · simp only [keyAt] at hb
          simp only [pushHeapLoop, if_pos h0, opPtrCompare_eq hpn hval, decide_eq_true hb,
            Outcome.ok_bind, if_true, hw]
        · rcases hm x hx with h | h
          · rcases List.mem_or_eq_of_mem_set h with h | rfl
            · exact .inl h
            · exact .inl (getD_mem (by omega))
          · exact .inr h
      · refine ⟨v.set hole value, ?_, by simp, o.finish (by omega) fun _ => by omega, hfill⟩
        simp only [keyAt] at hb
        simp only [pushHeapLoop, if_pos h0, opPtrCompare_eq hpn hval, decide_eq_false hb,
          Outcome.ok_bind, Bool.false_eq_true, if_false]
        rfl
    · refine ⟨v.set hole value, by simp [pushHeapLoop, h0], by simp,
        o.finish (by omega) fun h => absurd h h0, hfill⟩

end Up

/-! ### `__adjust_heap` -/

section Down
variable {v : List OpPtr} {len hole : Nat}

theorem DownOrder.move (o : DownOrder v len hole) {c : Nat} (hc : IsChild c hole) (hcl : c < len)
    (hv : len ≤ v.length) (hmin : ∀ s, IsChild s hole → s < len → keyAt v c ≤ keyAt v s) :
    DownOrder (v.set hole (v.getD c none)) len c := by
  obtain ⟨hc0, hcp⟩ := hc
  refine ⟨fun i hi0 hil hic hpc => ?_, fun _ d hd hdl => ?_⟩
  · by_cases hih : i = hole
    · subst hih
      rw [keyAt_set_ne _ (by omega), keyAt_set_self _ (by omega)]
      exact o.grand (by omega) c ⟨hc0, hcp⟩ hcl
    · rw [keyAt_set_ne _ (Ne.symm hih)]
      by_cases hph : (i - 1) / 2 = hole
      · rw [hph, keyAt_set_self _ (by omega)]
        exact hmin i ⟨hi0, hph⟩ hil
      · rw [keyAt_set_ne _ (Ne.symm hph)]
        exact o.except i hi0 hil hih hph
  · obtain ⟨hd0, hdp⟩ := hd
    rw [hcp, keyAt_set_self _ (by omega), keyAt_set_ne _ (by omega)]
    exact hdp ▸ o.except d hd0 hdl (by omega) (by omega)

theorem DownOrder.up (o : DownOrder v len hole) (value : OpPtr)
    (hleaf : ∀ c, IsChild c hole → c < len → False) : UpOrder v len hole value :=
  ⟨o, fun c hc hcl => (hleaf c hc hcl).elim⟩

theorem descent_child_le (v : List OpPtr) (hole : Nat) :
    ∃ c, (if keyAt v (2 * (hole + 1) - 1) < keyAt v (2 * (hole + 1)) then 2 * (hole + 1) - 1
      else 2 * (hole + 1)) = c ∧ IsChild c hole ∧ ∀ s, IsChild s hole → keyAt v c ≤ keyAt v s := by
  refine ⟨_, rfl, ?_, fun s hs => ?_⟩
  · split <;> exact ⟨by omega, by omega⟩
  · obtain ⟨hs0, hsp⟩ := hs
    have : s = 2 * (hole + 1) - 1 ∨ s = 2 * (hole + 1) := by omega
    split <;> rcases this with rfl | rfl <;> omega

theorem adjustHeapLoop_ok {n : Nat} (hf : (len - 1) / 2 ≤ hole + n) (hl : hole < len)
    (hv : len ≤ v.length) (hn : NoNull v) (o : DownOrder v len hole) :
    ∃ w h, adjustHeapLoop (n + 1) v hole len = .ok (w, h) ∧ w.length = v.length ∧ h < len ∧
      (len - 1) / 2 ≤ h ∧ NoNull w ∧ DownOrder w len h ∧ ∀ x ∈ w, x ∈ v := by
  induction n generalizing v hole with
  | zero =>
    refine ⟨v, hole, ?_, rfl, hl, by omega, hn, o, fun _ h => h⟩
    simp [adjustHeapLoop, show ¬ hole < (len - 1) / 2 by omega]
  | succ n ih =>
    by_cases hc : hole < (len - 1) / 2
    · have h1 := hn.getD (i := 2 * (hole + 1) - 1) (by omega)
      have h2 := hn.getD (i := 2 * (hole + 1)) (by omega)
      obtain ⟨c, hce, hcc, hmin⟩ := descent_child_le v hole
      have hcl : c < len := by obtain ⟨_, _⟩ := hcc; omega
      obtain ⟨w, h, hw, hlen, hhl, hhge, hwn, hwo, hm⟩ := ih (by obtain ⟨_, _⟩ := hcc; omega)
        hcl (by simpa using hv) (hn.set (hn.getD (by omega)))
        (o.move hcc hcl hv fun s hs _ => hmin s hs)
      refine ⟨w, h, ?_, by simpa using hlen, hhl, hhge, hwn, hwo, fun x hx => ?_⟩
      · simp only [keyAt] at hce
        rw [adjustHeapLoop]
        simp only [if_pos hc, opPtrCompare_eq h2 h1, Outcome.ok_bind, decide_eq_true_eq, hce, hw]
      · rcases List.mem_or_eq_of_mem_set (hm x hx) with h | rfl
        · exact h
        · exact getD_mem (by omega)
    · refine ⟨v, hole, ?_, rfl, hl, by omega, hn, o, fun _ h => h⟩
      simp [adjustHeapLoop, hc]

theorem adjustHeap_ok {value : OpPtr} (hl : 0 < len) (hv : len ≤ v.length) (hn : NoNull v)
    (hval : value ≠ none) (o : DownOrder v len 0) :
    ∃ w, adjustHeap v 0 len value = .ok w ∧ w.length = v.length ∧ IsHeap w len ∧
      ∀ x ∈ w, x ∈ v ∨ x = value := by
  obtain ⟨w, h, hw, hlen, hhl, hhge, hwn, hwo, hm⟩ :=
    adjustHeapLoop_ok (n := len) (by omega) hl hv hn o
  by_cases hs : len % 2 = 0 ∧ h = (len - 2) / 2
  · -- the lone first child of the last parent moves up, and `value` starts from its place
    have hadj : adjustHeap v 0 len value =
        pushHeap (w.set h (w.getD (2 * h + 1) none)) (2 * h + 1) 0 value := by
      simp only [adjustHeap, hw, Outcome.ok_bind, if_pos hs,
        show 2 * (h + 1) - 1 = 2 * h + 1 by omega]
    obtain rfl : len = 2 * h + 2 := by omega
    clear hs hhge hhl
    have hwl : 2 * h + 2 ≤ w.length := hlen ▸ hv
    have hcc : IsChild (2 * h + 1) h := ⟨by omega, by omega⟩
    obtain ⟨u, hu, hulen, huh, hum⟩ := pushHeapLoop_ok (n := 2 * h + 1 + 1) (by omega) (by omega)
      (by simpa using hwl) (hwn.set (hwn.getD (by omega))) hval
      ((hwo.move hcc (by omega) hwl fun s hs _ => by
        obtain ⟨_, _⟩ := hs; rw [show s = 2 * h + 1 by omega]).up value
        fun c hc _ => by obtain ⟨_, _⟩ := hc; omega)
    refine ⟨u, by rw [hadj, pushHeap, hu], by simpa [hlen] using hulen, huh, fun x hx => ?_⟩
    rcases hum x hx with hx | hx
    · rcases List.mem_or_eq_of_mem_set hx with hx | rfl
      · exact .inl (hm x hx)
      · exact .inl (hm _ (getD_mem (by omega)))
    · exact .inr hx
  · obtain ⟨u, hu, hulen, huh, hum⟩ := pushHeapLoop_ok (n := h + 1) (Nat.lt_succ_self h)
      hhl (by omega) hwn hval (hwo.up value fun c hc _ => by obtain ⟨_, _⟩ := hc; omega)
    refine ⟨u, ?_, by omega, huh, fun x hx => (hum x hx).imp_left (hm x)⟩
    simp only [adjustHeap, hw, Outcome.ok_bind, if_neg hs, pushHeap, hu]

end Down

/-! ### `pop()`, and the order it serves -/

theorem keyAt_dropLast {v : List OpPtr} {i : Nat} (h : i < v.length - 1) :
    keyAt v.dropLast i = keyAt v i := by
  have hi : i < v.length := by omega
  simp [keyAt, List.getD_eq_getElem?_getD, List.getElem?_dropLast, h, hi]

theorem IsHeap.top_le {v : List OpPtr} (hh : IsHeap v v.length) {x : OpPtr} (hx : x ∈ v) :
    keyAt v 0 ≤ key x := by
  obtain ⟨i, hi, rfl⟩ := List.getElem_of_mem hx
  simpa [keyAt, List.getD_eq_getElem?_getD, hi] using hh.root_le i hi

theorem popHeap_ok {v : List OpPtr} (hh : IsHeap v v.length) (hn : NoNull v) :
    ∃ w, popHeap v = .ok w ∧ w.length = v.length - 1 ∧ IsHeap w w.length ∧ NoNull w ∧
      ∀ x ∈ w, x ∈ v := by
  by_cases h1 : 1 < v.length
  · have hd : DownOrder (v.set (v.length - 1) (v.getD 0 none)) (v.length - 1) 0 :=
      ⟨fun i hi0 hil _ _ => by
        rw [keyAt_set_ne _ (by omega), keyAt_set_ne _ (by omega)]
        exact hh i hi0 (by omega), fun h => absurd rfl h⟩
    obtain ⟨w, hw, hlen, hwh, hm⟩ := adjustHeap_ok (by omega) (by simp)
      (hn.set (hn.getD (by omega))) (hn.getD (i := v.length - 1) (by omega)) hd
    have hmv : ∀ x ∈ w.dropLast, x ∈ v := fun x hx => by
      rcases hm x (List.dropLast_subset _ hx) with hx | rfl
      · rcases List.mem_or_eq_of_mem_set hx with hx | rfl
        · exact hx
        · exact getD_mem (by omega)
      · exact getD_mem (by omega)
    refine ⟨w.dropLast, by simp only [popHeap, if_pos h1, hw, Outcome.map_ok], by simp [hlen],
      fun i hi0 hil => ?_,
      fun x hx => hn x (hmv x hx), hmv⟩
    simp only [List.length_dropLast, hlen, List.length_set] at hil
    rw [keyAt_dropLast (by simp [hlen]; omega), keyAt_dropLast (by simp [hlen]; omega)]
    exact hwh i hi0 hil
  · refine ⟨v.dropLast, by simp [popHeap, h1], by simp, fun i _ hi => ?_,
      fun x hx => hn x (List.dropLast_subset _ hx), fun x hx => List.dropLast_subset _ hx⟩
    simp only [List.length_dropLast] at hi
    omega

/-- A heap without a null `OpPtr` is served by trigger point. -/
theorem serveOrder_sorted {fuel : Nat} {v : List OpPtr} (hf : v.length ≤ fuel)
    (hh : IsHeap v v.length) (hn : NoNull v) :
    ∃ xs, serveOrder fuel v = .ok xs ∧ (∀ x ∈ xs, x ∈ v) ∧
      xs.Pairwise fun a b => key a ≤ key b := by
  induction fuel generalizing v with
  | zero =>
    obtain rfl : v = [] := List.eq_nil_of_length_eq_zero (by omega)
    exact ⟨[], rfl, nofun, .nil⟩
  | succ fuel ih =>
    cases v with
    | nil => exact ⟨[], rfl, nofun, .nil⟩
    | cons top rest =>
      obtain ⟨w, hw, hlen, hwh, hwn, hwm⟩ := popHeap_ok hh hn
      obtain ⟨xs, hxs, hxm, hxp⟩ := ih (by simp at hlen hf; omega) hwh hwn
      refine ⟨top :: xs, by simp [serveOrder, hw, hxs], fun x hx => ?_,
        List.pairwise_cons.2 ⟨fun x hx => hh.top_le (hwm x (hxm x hx)), hxp⟩⟩
      rcases List.mem_cons.1 hx with rfl | hx
      · exact List.mem_cons_self _ _
      · exact hwm x (hxm x hx)

/-! ### Building the queue -/

/-- What `emplace` keeps from the empty vector on. -/
def Built (v : List OpPtr) : Prop := (IsHeap v v.length ∧ NoNull v) ∨ v = [none]

theorem keyAt_append {v : List OpPtr} {i : Nat} (x : OpPtr) (h : i < v.length) :
    keyAt (v ++ [x]) i = keyAt v i := by
  simp [keyAt, List.getD_eq_getElem?_getD, List.getElem?_append_left h]

theorem Built.emplace {v w : List OpPtr} {op : OpPtr} (hb : Built v) (h : emplace v op = .ok w) :
    Built w := by
  rcases hb with ⟨hh, hn⟩ | rfl
  · cases op with
    | none =>
      cases v with
      | nil => simp [LServer.emplace, pushHeap, pushHeapLoop] at h; exact .inr h.symm
      | cons a v => simp [LServer.emplace, pushHeap, pushHeapLoop, opPtrCompare_none] at h
    | some o =>
      have ho : UpOrder (v ++ [some o]) (v.length + 1) v.length (some o) :=
        ⟨⟨fun i hi0 hil hih _ => by
            rw [keyAt_append _ (by omega), keyAt_append _ (by omega)]
            exact hh i hi0 (by omega),
          fun _ c hc _ => by obtain ⟨_, _⟩ := hc; omega⟩,
          fun c hc _ => by obtain ⟨_, _⟩ := hc; omega⟩
      have hn' : NoNull (v ++ [some o]) := fun x hx => by
        rcases List.mem_append.1 hx with hx | hx
        · exact hn x hx
        · rw [List.mem_singleton.1 hx]; exact Option.some_ne_none o
      obtain ⟨u, hu, hulen, huh, hum⟩ :=
        pushHeapLoop_ok (n := v.length + 1) (by omega) (by omega) (by simp) hn' (by simp) ho
      rw [LServer.emplace, pushHeap, hu] at h
      cases h
      refine .inl ⟨by simpa [hulen] using huh, fun x hx => ?_⟩
      rcases hum x hx with hx | rfl
      · exact hn' x hx
      · exact Option.some_ne_none o
  · simp [LServer.emplace, pushHeap, pushHeapLoop, opPtrCompare] at h

theorem Built.serveOrder {v : List OpPtr} (hb : Built v) :
    (∃ xs, LServer.serveOrder v.length v = .ok xs ∧ NoNull xs ∧
      xs.Pairwise fun a b => key a ≤ key b) ∨ LServer.serveOrder v.length v = .ok [none] := by
  rcases hb with ⟨hh, hn⟩ | rfl
  · obtain ⟨xs, hxs, hxm, hxp⟩ := serveOrder_sorted le_rfl hh hn
    exact .inl ⟨xs, hxs, fun x hx => hn x (hxm x hx), hxp⟩
  · exact .inr rfl

theorem NoNull.eq_map_some : ∀ {xs : List OpPtr}, NoNull xs → ∃ ys : List BaseOp, xs = ys.map some
  | [], _ => ⟨[], rfl⟩
  | x :: xs, hn => by
    obtain ⟨y, rfl⟩ := Option.ne_none_iff_exists'.1 (hn x (List.mem_cons_self _ _))
    obtain ⟨ys, rfl⟩ := NoNull.eq_map_some fun z hz => hn z (List.mem_cons_of_mem _ hz)
    exact ⟨y :: ys, rfl⟩

end Heap

end LServer
