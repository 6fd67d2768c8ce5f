import LServer.Basic
import Mathlib.Data.List.Count
import Mathlib.Data.List.Rotate

set_option autoImplicit false

namespace LServer

/-- An `LSContext`: `active_`, `ref_cnt_`, `hold_cnt_`, `num_threads_` and its threads. -/
structure LSContext where
  active : Bool
  refCnt : Nat
  holdCnt : Nat
  numThreads : Option Nat
  threads : Nat
  deriving DecidableEq, Repr

def ebusy : Int := 16

namespace LSContext

def new : LSContext := ⟨true, 0, 0, none, 0⟩

def setNumThreads (c : LSContext) (n : Nat) : Except String LSContext :=
  if n < 1 then .error "Thread multiplier should greater than 0"
  else if n > 64 then .error "Thread multiplier should be less than 65"
  else .ok { c with numThreads := some n }

theorem setNumThreads_eq_ok {c c' : LSContext} {n : Nat} (h : c.setNumThreads n = .ok c') :
    c' = { c with numThreads := some n } := by
  unfold setNumThreads at h
  split_ifs at h
  cases h; rfl

def runThreads (c : LSContext) : LSContext := { c with threads := c.threads + c.numThreads.getD 0 }

def removable (c : LSContext) : Int := if c.holdCnt > 0 then ebusy else 0

def stop (c : LSContext) (force : Bool) : Int × LSContext :=
  if c.removable > 0 ∧ !force then (c.removable, c) else (0, { c with active := false, threads := 0 })

def reusable (c : LSContext) : Bool := !c.active && c.refCnt == 0

def reuse (c : LSContext) (n : Nat) : LSContext :=
  { c with active := true, numThreads := some n, threads := n }

def hold (c : LSContext) : LSContext := { c with holdCnt := c.holdCnt + 1 }

def unhold (c : LSContext) : LSContext := { c with holdCnt := c.holdCnt - 1 }

def ref (c : LSContext) : LSContext := { c with refCnt := c.refCnt + 1 }

def deref (c : LSContext) : LSContext := { c with refCnt := c.refCnt - 1 }

end LSContext

/-- The pool: `lscontexts_`, its capacity, and `next_context_` as an index. -/
structure LSContextPool where
  contexts : List LSContext
  capacity : Nat
  next : Nat
  deriving DecidableEq, Repr

namespace LSContextPool

def reuseFirst (n : Nat) : List LSContext → Option (List LSContext)
  | [] => none
  | c :: cs => if c.reusable then some (c.reuse n :: cs) else (reuseFirst n cs).map (c :: ·)

/-- `add_context(num_threads)`: the state after the call, and the message it threw. -/
def addContext (p : LSContextPool) (n : Nat) : LSContextPool × Except String Unit :=
  match reuseFirst n p.contexts with
  | some cs => ({ p with contexts := cs }, .ok ())
  | none =>
    if p.contexts.length = p.capacity then (p, .error "Max contexts count will be exceeded.")
    else
      match LSContext.new.setNumThreads n with
      | .ok c => ({ p with contexts := p.contexts ++ [c.runThreads] }, .ok ())
      | .error e => ({ p with contexts := p.contexts ++ [LSContext.new] }, .error e)

def activeContextsCount (p : LSContextPool) : Nat := p.contexts.countP LSContext.active

/-- `deactivate_context(index)`: the state after the call, and its return code or message. -/
def deactivateContext (p : LSContextPool) (i : Nat) : LSContextPool × Except String Int :=
  match p.contexts[i]? with
  | none => (p, .error "Bad context index")
  | some c =>
    if !c.active then (p, .error "Context is not active")
    else if p.activeContextsCount < 2 then (p, .error "There should be at least one active context")
    else
      let r := c.stop false
      ({ p with contexts := p.contexts.set i r.2 }, .ok r.1)

def activeAt (cs : List LSContext) (i : Nat) : Bool :=
  match cs[i]? with
  | some c => c.active
  | none => false

def roundRobinLoop (cs : List LSContext) : Nat → Nat → Option (Nat × Nat)
  | 0, _ => none
  | fuel + 1, next =>
    let next' := if next + 1 = cs.length then 0 else next + 1
    if activeAt cs next then some (next, next') else roundRobinLoop cs fuel next'

/-- `get_context_round_robin()`: the chosen context's index, `hold()`ed. -/
def getContextRoundRobin (p : LSContextPool) : Outcome (Nat × LSContextPool) :=
  if p.next < p.contexts.length then
    match roundRobinLoop p.contexts p.contexts.length p.next with
    | some (i, n) => .ok (i, { p with contexts := p.contexts.modify LSContext.hold i, next := n })
    | none => .hangs
  else .undefined

def addContextOrThrow (p : LSContextPool) (n : Nat) : Except String LSContextPool :=
  match p.addContext n with
  | (p', .ok ()) => .ok p'
  | (_, .error e) => .error e

def new (poolSize maxPoolSize threadMultiplier : Nat) : Except String LSContextPool :=
  (fun p : LSContextPool => { p with next := 0 }) <$>
    (List.range poolSize).foldlM (fun p _ => p.addContextOrThrow threadMultiplier) ⟨[], maxPoolSize, 0⟩

/-! ### The round robin -/

theorem cursor_lt {next len : Nat} (hn : next < len) :
    (if next + 1 = len then 0 else next + 1) < len := by
  split <;> omega

theorem cursor_add_mod {next len : Nat} (m : Nat) :
    ((if next + 1 = len then 0 else next + 1) + m) % len = (next + (m + 1)) % len := by
  split
  · rw [Nat.zero_add, show next + (m + 1) = len + m by omega, Nat.add_mod_left]
  · rw [Nat.add_assoc, Nat.add_comm 1 m]

theorem roundRobinLoop_eq_some {cs : List LSContext} {fuel next i n : Nat}
    (hn : next < cs.length) (h : roundRobinLoop cs fuel next = some (i, n)) :
    activeAt cs i = true ∧ n = (i + 1) % cs.length ∧
      ∃ k < fuel, i = (next + k) % cs.length ∧
        ∀ j < k, activeAt cs ((next + j) % cs.length) = false := by
  induction fuel generalizing next with
  | zero => cases h
  | succ fuel ih =>
    simp only [roundRobinLoop] at h
    split at h
    · cases h
      refine ⟨‹_›, ?_, 0, Nat.succ_pos _, (Nat.mod_eq_of_lt hn).symm, fun j hj => absurd hj (by omega)⟩
      split
      · rename_i h'; rw [h', Nat.mod_self]
      · exact (Nat.mod_eq_of_lt (by omega)).symm
    · rename_i hna
      obtain ⟨ha, hn', k, hk, hi, hj⟩ := ih (cursor_lt hn) h
      refine ⟨ha, hn', k + 1, by omega, hi.trans (cursor_add_mod k), fun j hj' => ?_⟩
      cases j with
      | zero => rw [Nat.add_zero, Nat.mod_eq_of_lt hn]; exact Bool.eq_false_iff.2 hna
      | succ j => rw [← cursor_add_mod j]; exact hj j (by omega)

theorem roundRobinLoop_isSome {cs : List LSContext} {fuel next k : Nat} (hn : next < cs.length)
    (hk : k < fuel) (ha : activeAt cs ((next + k) % cs.length) = true) :
    (roundRobinLoop cs fuel next).isSome := by
  induction fuel generalizing next k with
  | zero => omega
  | succ fuel ih =>
    simp only [roundRobinLoop]
    split
    · rfl
    · rename_i hna
      cases k with
      | zero => rw [Nat.add_zero, Nat.mod_eq_of_lt hn] at ha; exact absurd ha hna
      | succ k => exact ih (k := k) (cursor_lt hn) (by omega) (by rwa [cursor_add_mod])

theorem exists_turn {len next i : Nat} (hn : next < len) (hi : i < len) :
    ∃ k < len, (next + k) % len = i := by
  by_cases h : next ≤ i
  · exact ⟨i - next, by omega, by rw [Nat.add_sub_cancel' h, Nat.mod_eq_of_lt hi]⟩
  · refine ⟨i + len - next, by omega, ?_⟩
    rw [show next + (i + len - next) = i + len by omega, Nat.add_mod_right, Nat.mod_eq_of_lt hi]

theorem activeAt_of_countP {cs : List LSContext} (h : 0 < cs.countP LSContext.active) :
    ∃ i < cs.length, activeAt cs i = true := by
  obtain ⟨c, hc, ha⟩ := List.countP_pos_iff.1 h
  obtain ⟨i, hi⟩ := List.mem_iff_getElem?.1 hc
  exact ⟨i, (List.getElem?_eq_some_iff.1 hi).1, by simp [activeAt, hi, ha]⟩

theorem getContextRoundRobin_ok {p : LSContextPool} (hn : p.next < p.contexts.length)
    (ha : 0 < p.activeContextsCount) :
    ∃ i, activeAt p.contexts i = true ∧
      (∃ k < p.contexts.length, i = (p.next + k) % p.contexts.length ∧
        ∀ j < k, activeAt p.contexts ((p.next + j) % p.contexts.length) = false) ∧
      p.getContextRoundRobin = .ok (i, { p with
        contexts := p.contexts.modify LSContext.hold i
        next := (i + 1) % p.contexts.length }) := by
  obtain ⟨a, hal, haa⟩ := activeAt_of_countP ha
  obtain ⟨k, hk, hka⟩ := exists_turn hn hal
  obtain ⟨⟨i, n⟩, hr⟩ := Option.isSome_iff_exists.1 (roundRobinLoop_isSome hn hk (hka ▸ haa))
  obtain ⟨hia, rfl, hturn⟩ := roundRobinLoop_eq_some hn hr
  exact ⟨i, hia, hturn, by simp only [getContextRoundRobin, if_pos hn, hr]⟩

theorem roundRobinLoop_first {cs : List LSContext} {fuel next k : Nat} (hn : next < cs.length)
    (hk : k < fuel) (hs : ∀ j < k, activeAt cs ((next + j) % cs.length) = false)
    (ha : activeAt cs ((next + k) % cs.length) = true) :
    roundRobinLoop cs fuel next =
      some ((next + k) % cs.length, ((next + k) % cs.length + 1) % cs.length) := by
  induction fuel generalizing next k with
  | zero => omega
  | succ fuel ih =>
    simp only [roundRobinLoop]
    cases k with
    | zero =>
      simp only [Nat.add_zero, Nat.mod_eq_of_lt hn] at ha ⊢
      rw [if_pos ha]
      split
      · rename_i h'; rw [h', Nat.mod_self]
      · rw [Nat.mod_eq_of_lt (by omega)]
    | succ k =>
      have h0 := hs 0 (Nat.succ_pos k)
      rw [Nat.add_zero, Nat.mod_eq_of_lt hn] at h0
      rw [if_neg (by rw [h0]; decide), ih (k := k) (cursor_lt hn) (by omega)
        (fun j hj => by rw [cursor_add_mod]; exact hs (j + 1) (by omega)) (by rwa [cursor_add_mod]),
        cursor_add_mod]

def order (cs : List LSContext) (next : Nat) : List Nat :=
  ((List.range cs.length).rotate next).filter (activeAt cs)

theorem getElem?_rotate_range (next : Nat) {len j : Nat} (hj : j < len) :
    ((List.range len).rotate next)[j]? = some ((next + j) % len) := by
  rw [List.getElem?_rotate (by simpa using hj), List.length_range,
    List.getElem?_range (Nat.mod_lt _ (by omega)), Nat.add_comm]

theorem activeAt_lt {cs : List LSContext} {i : Nat} (h : activeAt cs i = true) : i < cs.length := by
  unfold activeAt at h
  split at h
  · exact (List.getElem?_eq_some_iff.1 ‹_›).1
  · cases h

theorem mem_order {cs : List LSContext} {next i : Nat} :
    i ∈ order cs next ↔ activeAt cs i = true := by
  simp only [order, List.mem_filter, List.mem_rotate, List.mem_range, and_iff_right_iff_imp]
  exact activeAt_lt

theorem nodup_order (cs : List LSContext) (next : Nat) : (order cs next).Nodup :=
  (List.nodup_rotate.2 (List.nodup_range _)).filter _

theorem countP_range_activeAt :
    ∀ cs : List LSContext, (List.range cs.length).countP (activeAt cs) = cs.countP LSContext.active
  | [] => rfl
  | c :: cs => by
    have hs : activeAt (c :: cs) ∘ Nat.succ = activeAt cs := funext fun i => by
      simp [activeAt]
    rw [List.length_cons, List.range_succ_eq_map, List.countP_cons, List.countP_map, hs,
      countP_range_activeAt cs, List.countP_cons]
    simp [activeAt]

theorem length_order (cs : List LSContext) (next : Nat) :
    (order cs next).length = cs.countP LSContext.active := by
  rw [order, ← List.countP_eq_length_filter, (List.rotate_perm _ _).countP_eq,
    countP_range_activeAt]

theorem roundRobinLoop_order {cs : List LSContext} {next i : Nat} {rest : List Nat}
    (hn : next < cs.length) (h : order cs next = i :: rest) :
    roundRobinLoop cs cs.length next = some (i, (i + 1) % cs.length) ∧
      order cs ((i + 1) % cs.length) = rest ++ [i] := by
  obtain ⟨l₁, l₂, hL, hs, ha, hr⟩ := List.filter_eq_cons_iff.1 h
  have hlen : l₁.length < cs.length := by
    have := congrArg List.length hL
    simp only [List.length_rotate, List.length_range, List.length_append, List.length_cons] at this
    omega
  have hi : (next + l₁.length) % cs.length = i := by
    have := getElem?_rotate_range next hlen
    rw [hL, List.getElem?_append_right (Nat.le_refl _), Nat.sub_self, List.getElem?_cons_zero] at this
    exact (Option.some.inj this).symm
  have hskip : ∀ j < l₁.length, activeAt cs ((next + j) % cs.length) = false := fun j hj => by
    have := getElem?_rotate_range next (hj.trans hlen)
    rw [hL, List.getElem?_append_left hj] at this
    exact Bool.eq_false_iff.2 (hs _ (List.getElem?_mem this))
  refine ⟨by rw [roundRobinLoop_first hn hlen hskip (hi ▸ ha), hi], ?_⟩
  have hi' : (i + 1) % cs.length = (next + l₁.length + 1) % cs.length := by rw [← hi, Nat.mod_add_mod]
  have hm := List.rotate_mod (List.range cs.length) (next + l₁.length + 1)
  rw [List.length_range] at hm
  rw [order, hi', hm, Nat.add_assoc, ← List.rotate_rotate,
    hL, List.append_cons, ← List.length_concat l₁ i, List.concat_eq_append,
    List.rotate_append_length_eq, List.filter_append,
    hr, List.filter_append, List.filter_eq_nil_iff.2 hs]
  simp [ha]

/-! ### Runs of the pool -/

theorem countP_active_modify {f : LSContext → LSContext} (hf : ∀ c, (f c).active = c.active) :
    ∀ (cs : List LSContext) (i : Nat),
      (cs.modify f i).countP LSContext.active = cs.countP LSContext.active
  | [], _ => by simp
  | c :: cs, 0 => by simp [List.countP_cons, hf]
  | c :: cs, i + 1 => by simp [List.countP_cons, countP_active_modify hf cs i]

theorem reuseFirst_spec {n : Nat} :
    ∀ {cs cs' : List LSContext}, reuseFirst n cs = some cs' →
      cs'.length = cs.length ∧ 0 < cs'.countP LSContext.active ∧
        cs.countP LSContext.active ≤ cs'.countP LSContext.active
  | [], _, h => by cases h
  | c :: cs, cs', h => by
    simp only [reuseFirst] at h
    split at h
    · cases h; simp [List.countP_cons, LSContext.reuse]; split <;> omega
    · obtain ⟨cs'', h', rfl⟩ := Option.map_eq_some'.1 h
      obtain ⟨hl, hp, hc⟩ := reuseFirst_spec h'
      simp only [List.length_cons, hl, List.countP_cons, true_and]
      exact ⟨by omega, by omega⟩

theorem reuseFirst_mem {n : Nat} :
    ∀ {cs cs' : List LSContext}, reuseFirst n cs = some cs' →
      ∃ c ∈ cs', c.active = true ∧ c.numThreads = some n ∧ c.threads = n
  | [], _, h => by cases h
  | c :: cs, cs', h => by
    simp only [reuseFirst] at h
    split at h
    · cases h; exact ⟨_, List.mem_cons_self _ _, rfl, rfl, rfl⟩
    · obtain ⟨cs'', h', rfl⟩ := Option.map_eq_some'.1 h
      obtain ⟨c', hc', hp⟩ := reuseFirst_mem h'
      exact ⟨c', List.mem_cons_of_mem _ hc', hp⟩

theorem addContext_spec (p : LSContextPool) (n : Nat) (hb : p.contexts.length ≤ p.capacity) :
    (p.addContext n).1.capacity = p.capacity ∧ (p.addContext n).1.next = p.next ∧
      p.contexts.length ≤ (p.addContext n).1.contexts.length ∧
      (p.addContext n).1.contexts.length ≤ p.capacity ∧
      p.activeContextsCount ≤ (p.addContext n).1.activeContextsCount ∧
      ((p.addContext n).2 = .ok () → 0 < (p.addContext n).1.activeContextsCount) := by
  unfold addContext activeContextsCount
  split
  · rename_i cs h
    obtain ⟨hl, hp, hc⟩ := reuseFirst_spec h
    exact ⟨rfl, rfl, hl.ge, hl ▸ hb, hc, fun _ => hp⟩
  · split
    · exact ⟨rfl, rfl, le_rfl, hb, le_rfl, fun h => by cases h⟩
    · rename_i hfull
      have hlt : p.contexts.length < p.capacity := by omega
      split
      · rename_i c hc
        simpa [List.countP_append, LSContext.runThreads, LSContext.setNumThreads_eq_ok hc,
          LSContext.new] using hlt
      · simpa [List.countP_append, LSContext.new] using hlt

theorem deactivateContext_spec (p : LSContextPool) (i : Nat) :
    (p.deactivateContext i).1.capacity = p.capacity ∧ (p.deactivateContext i).1.next = p.next ∧
      (p.deactivateContext i).1.contexts.length = p.contexts.length ∧
      (0 < p.activeContextsCount → 0 < (p.deactivateContext i).1.activeContextsCount) := by
  unfold deactivateContext
  split
  · exact ⟨rfl, rfl, rfl, id⟩
  · rename_i c hc
    split_ifs with h1 h2
    · exact ⟨rfl, rfl, rfl, id⟩
    · exact ⟨rfl, rfl, rfl, id⟩
    · refine ⟨rfl, rfl, List.length_set .., fun _ => ?_⟩
      simp only [activeContextsCount, not_lt] at h2 ⊢
      rw [countP_set_of_getElem? _ hc]
      split <;> omega

/-- The pool's invariant: within its capacity, an active context, the cursor inside. -/
structure Inv (p : LSContextPool) : Prop where
  bounded : p.contexts.length ≤ p.capacity
  active : 0 < p.activeContextsCount
  next_lt : p.next < p.contexts.length

theorem foldlM_addContextOrThrow (n : Nat) :
    ∀ (l : List Nat) {p q : LSContextPool}, p.contexts.length ≤ p.capacity →
      l.foldlM (fun p _ => p.addContextOrThrow n) p = .ok q →
      q.capacity = p.capacity ∧ q.contexts.length ≤ q.capacity ∧
        (l ≠ [] ∨ 0 < p.activeContextsCount → 0 < q.activeContextsCount)
  | [], p, q, hb, h => by
    cases h; exact ⟨rfl, hb, fun h => h.resolve_left (absurd rfl)⟩
  | a :: l, p, q, hb, h => by
    obtain ⟨hc, -, -, hl, -, hok⟩ := addContext_spec p n hb
    simp only [List.foldlM_cons, addContextOrThrow] at h
    split at h
    · rename_i p' hp
      rw [hp] at hc hl hok
      obtain ⟨hc', hb', ha⟩ := foldlM_addContextOrThrow n l (hc ▸ hl) h
      exact ⟨hc'.trans hc, hb', fun _ => ha (.inr (hok rfl))⟩
    · cases h

theorem new_eq_ok {poolSize maxPoolSize threadMultiplier : Nat} {p : LSContextPool}
    (h : new poolSize maxPoolSize threadMultiplier = .ok p) :
    ∃ q, (List.range poolSize).foldlM (fun p _ => p.addContextOrThrow threadMultiplier)
      (⟨[], maxPoolSize, 0⟩ : LSContextPool) = .ok q ∧ p = { q with next := 0 } := by
  unfold new at h
  cases hf : (List.range poolSize).foldlM (fun p _ => p.addContextOrThrow threadMultiplier)
    (⟨[], maxPoolSize, 0⟩ : LSContextPool) with
  | error e => rw [hf] at h; cases h
  | ok q => rw [hf] at h; cases h; exact ⟨q, rfl, rfl⟩

theorem new_inv {poolSize maxPoolSize threadMultiplier : Nat} {p : LSContextPool}
    (h0 : 0 < poolSize) (h : new poolSize maxPoolSize threadMultiplier = .ok p) : p.Inv := by
  obtain ⟨q, hf, rfl⟩ := new_eq_ok h
  obtain ⟨-, hb, ha⟩ := foldlM_addContextOrThrow _ _ (Nat.zero_le _) hf
  have ha := ha (.inl (by simp; omega))
  exact ⟨hb, ha, Nat.lt_of_lt_of_le ha (List.countP_le_length _)⟩

theorem new_capacity {poolSize maxPoolSize threadMultiplier : Nat} {p : LSContextPool}
    (h : new poolSize maxPoolSize threadMultiplier = .ok p) : p.capacity = maxPoolSize :=
  let ⟨_, hf, hp⟩ := new_eq_ok h
  hp ▸ (foldlM_addContextOrThrow _ _ (Nat.zero_le _) hf).1

inductive Reachable : LSContextPool → Prop
  | new {poolSize maxPoolSize threadMultiplier : Nat} {p : LSContextPool} :
      0 < poolSize → LSContextPool.new poolSize maxPoolSize threadMultiplier = .ok p → Reachable p
  | addContext {p : LSContextPool} (n : Nat) : Reachable p → Reachable (p.addContext n).1
  | deactivateContext {p : LSContextPool} (i : Nat) :
      Reachable p → Reachable (p.deactivateContext i).1
  | getContextRoundRobin {p p' : LSContextPool} {i : Nat} :
      Reachable p → p.getContextRoundRobin = .ok (i, p') → Reachable p'
  /-- `unhold()`, `ref()` or `deref()` of context `i` by a session or the acceptor. -/
  | context {p : LSContextPool} (f : LSContext → LSContext) (i : Nat) :
      f = LSContext.unhold ∨ f = LSContext.ref ∨ f = LSContext.deref →
      Reachable p → Reachable { p with contexts := p.contexts.modify f i }

theorem Inv.addContext {p : LSContextPool} (hi : p.Inv) (n : Nat) : (p.addContext n).1.Inv := by
  obtain ⟨hc, hn, hl, hb, ha, -⟩ := addContext_spec p n hi.bounded
  exact ⟨hc ▸ hb, Nat.lt_of_lt_of_le hi.active ha, hn ▸ Nat.lt_of_lt_of_le hi.next_lt hl⟩

theorem Inv.deactivateContext {p : LSContextPool} (hi : p.Inv) (i : Nat) :
    (p.deactivateContext i).1.Inv := by
  obtain ⟨hc, hn, hl, ha⟩ := deactivateContext_spec p i
  exact ⟨hc ▸ hl ▸ hi.bounded, ha hi.active, hn ▸ hl ▸ hi.next_lt⟩

theorem Inv.modify {p : LSContextPool} (hi : p.Inv) {f : LSContext → LSContext}
    (hf : ∀ c, (f c).active = c.active) (i : Nat) (n : Nat) (hn : n < p.contexts.length) :
    Inv { p with contexts := p.contexts.modify f i, next := n } :=
  ⟨(List.length_modify f i _).trans_le hi.bounded,
    hi.active.trans_eq (countP_active_modify hf _ i).symm, (List.length_modify f i _).symm ▸ hn⟩

theorem Inv.getContextRoundRobin {p p' : LSContextPool} {i : Nat} (hi : p.Inv)
    (h : p.getContextRoundRobin = .ok (i, p')) : p'.Inv := by
  unfold LSContextPool.getContextRoundRobin at h
  rw [if_pos hi.next_lt] at h
  split at h
  · rename_i j n hr
    cases h
    obtain ⟨-, rfl, -⟩ := roundRobinLoop_eq_some hi.next_lt hr
    exact hi.modify (f := LSContext.hold) (fun _ => rfl) i _
      (Nat.mod_lt _ (Nat.zero_lt_of_lt hi.next_lt))
  · cases h

theorem reachable_inv {p : LSContextPool} (h : Reachable p) : p.Inv := by
  induction h with
  | new h0 hp => exact new_inv h0 hp
  | addContext n _ ih => exact ih.addContext n
  | deactivateContext i _ ih => exact ih.deactivateContext i
  | getContextRoundRobin _ hs ih => exact ih.getContextRoundRobin hs
  | context f i hf _ ih =>
    exact ih.modify (by rcases hf with rfl | rfl | rfl <;> exact fun _ => rfl) i _ ih.next_lt

/-! ### Runs of calls -/

inductive Call where
  | addContext (n : Nat)
  | deactivateContext (i : Nat)
  | getContextRoundRobin
  | unhold (i : Nat)
  deriving DecidableEq, Repr

def call (p : LSContextPool) : Call → Outcome (Option Nat × LSContextPool)
  | .addContext n => .ok (none, (p.addContext n).1)
  | .deactivateContext i => .ok (none, (p.deactivateContext i).1)
  | .getContextRoundRobin => (fun r => (some r.1, r.2)) <$> p.getContextRoundRobin
  | .unhold i => .ok (none, { p with contexts := p.contexts.modify LSContext.unhold i })

def runCalls (p : LSContextPool) : List Call → Outcome (List Nat × LSContextPool)
  | [] => .ok ([], p)
  | c :: cs => p.call c >>= fun r => (fun q => (r.1.toList ++ q.1, q.2)) <$> r.2.runCalls cs

theorem activeAt_modify {f : LSContext → LSContext} (hf : ∀ c, (f c).active = c.active)
    (cs : List LSContext) (i j : Nat) : activeAt (cs.modify f i) j = activeAt cs j := by
  unfold activeAt
  rw [List.getElem?_modify]
  cases cs[j]? with
  | none => rfl
  | some c => dsimp only [Functor.map, Option.map]; split <;> simp [hf]

theorem order_modify {f : LSContext → LSContext} (hf : ∀ c, (f c).active = c.active)
    (cs : List LSContext) (i next : Nat) : order (cs.modify f i) next = order cs next := by
  rw [order, order, List.length_modify, funext (activeAt_modify hf cs i)]

@[simp] theorem order_hold (cs : List LSContext) (i next : Nat) :
    order (cs.modify LSContext.hold i) next = order cs next :=
  order_modify (f := LSContext.hold) (fun _ => rfl) cs i next

@[simp] theorem order_unhold (cs : List LSContext) (i next : Nat) :
    order (cs.modify LSContext.unhold i) next = order cs next :=
  order_modify (f := LSContext.unhold) (fun _ => rfl) cs i next

theorem Reachable.call {p : LSContextPool} (hp : Reachable p) (c : Call) :
    ∃ r q, p.call c = .ok (r, q) ∧ Reachable q ∧ q.capacity = p.capacity := by
  cases c with
  | addContext n => exact ⟨_, _, rfl, hp.addContext n, (addContext_spec p n (reachable_inv hp).bounded).1⟩
  | deactivateContext i => exact ⟨_, _, rfl, hp.deactivateContext i, (deactivateContext_spec p i).1⟩
  | getContextRoundRobin =>
    have hi := reachable_inv hp
    obtain ⟨i, -, -, h⟩ := getContextRoundRobin_ok hi.next_lt hi.active
    exact ⟨_, _, by rw [LSContextPool.call, h]; rfl, hp.getContextRoundRobin h, rfl⟩
  | unhold i => exact ⟨_, _, rfl, hp.context _ i (.inl rfl), rfl⟩

theorem Reachable.runCalls {p : LSContextPool} (hp : Reachable p) :
    ∀ cs : List Call, ∃ ids q, p.runCalls cs = .ok (ids, q) ∧ Reachable q ∧ q.capacity = p.capacity
  | [] => ⟨_, _, rfl, hp, rfl⟩
  | c :: cs => by
    obtain ⟨r, q, hc, hq, hcq⟩ := hp.call c
    obtain ⟨ids, q', hr, hq', hcq'⟩ := hq.runCalls cs
    exact ⟨r.toList ++ ids, q', by simp only [LSContextPool.runCalls, hc, Outcome.ok_bind, hr,
      Outcome.map_ok], hq', hcq'.trans hcq⟩

theorem getContextRoundRobin_order {p : LSContextPool} (hn : p.next < p.contexts.length)
    {i : Nat} {o : List Nat} (ho : order p.contexts p.next = i :: o) :
    ∃ q, p.getContextRoundRobin = .ok (i, q) ∧ q.next < q.contexts.length ∧
      order q.contexts q.next = o ++ [i] := by
  obtain ⟨hloop, ho'⟩ := roundRobinLoop_order hn ho
  refine ⟨{ p with
    contexts := p.contexts.modify LSContext.hold i
    next := (i + 1) % p.contexts.length }, ?_, ?_, ?_⟩
  · simp only [getContextRoundRobin, if_pos hn, hloop]
  · simpa using Nat.mod_lt _ (Nat.zero_lt_of_lt hn)
  · simpa using ho'

theorem runCalls_gets {p : LSContextPool} (hn : p.next < p.contexts.length) {cs : List Call}
    (hcs : ∀ c ∈ cs, c = .getContextRoundRobin ∨ ∃ i, c = .unhold i)
    (hk : cs.count .getContextRoundRobin ≤ (order p.contexts p.next).length) :
    ∃ q, p.runCalls cs =
      .ok ((order p.contexts p.next).take (cs.count .getContextRoundRobin), q) := by
  induction cs generalizing p with
  | nil => exact ⟨p, rfl⟩
  | cons c cs ih =>
    have hcs' := fun c' hc' => hcs c' (List.mem_cons_of_mem c hc')
    rcases hcs c (List.mem_cons_self c cs) with rfl | ⟨j, rfl⟩
    · rw [List.count_cons_self] at hk ⊢
      obtain ⟨i, o, ho⟩ := List.exists_cons_of_ne_nil
        (List.ne_nil_of_length_pos (Nat.lt_of_lt_of_le (Nat.succ_pos _) hk))
      obtain ⟨q, hg, hqn, hqo⟩ := getContextRoundRobin_order hn ho
      rw [ho, List.length_cons] at hk
      have hk' := Nat.le_of_succ_le_succ hk
      obtain ⟨r, hr⟩ := ih hqn hcs' (by rw [hqo, List.length_append]; omega)
      rw [hqo, List.take_append_of_le_length hk'] at hr
      exact ⟨r, by simp only [LSContextPool.runCalls, call, hg, Outcome.map_ok, Outcome.ok_bind,
        hr, ho, List.take_succ_cons]; rfl⟩
    · rw [List.count_cons_of_ne (by simp)] at hk ⊢
      obtain ⟨q, hq⟩ := ih (p := { p with contexts := p.contexts.modify LSContext.unhold j })
        (by simpa using hn) hcs' (by simpa using hk)
      simp only [order_unhold] at hq
      exact ⟨q, by simp only [LSContextPool.runCalls, call, Outcome.ok_bind, hq, Outcome.map_ok]; rfl⟩

theorem deactivateContext_cases (p : LSContextPool) (i : Nat) :
    (p.deactivateContext i).1 = p ∨
      ∃ c, p.contexts[i]? = some c ∧ c.holdCnt = 0 ∧ p.deactivateContext i =
        ({ p with contexts := p.contexts.set i { c with active := false, threads := 0 } }, .ok 0) := by
  unfold deactivateContext
  split
  · exact .inl rfl
  · rename_i c hc
    split_ifs
    · exact .inl rfl
    · exact .inl rfl
    · unfold LSContext.stop LSContext.removable
      by_cases h0 : c.holdCnt = 0
      · exact .inr ⟨c, hc, h0, by simp [h0]⟩
      · exact .inl (by simp [h0, Nat.pos_of_ne_zero h0, ebusy, set_of_getElem? hc])

theorem getElem?_modify_hold (cs : List LSContext) (i j : Nat) :
    (cs.modify LSContext.hold i)[j]? =
      cs[j]?.map fun c => if j = i then { c with holdCnt := c.holdCnt + 1 } else c := by
  rw [List.getElem?_modify]
  cases cs[j]? <;> simp [LSContext.hold, eq_comm]

/-- The pool's laws over every run of calls from a new pool. -/
theorem context_pool_laws {poolSize maxPoolSize threadMultiplier : Nat} {p₀ : LSContextPool}
    (h1 : 1 ≤ poolSize) (hnew : new poolSize maxPoolSize threadMultiplier = .ok p₀)
    (cs : List Call) :
    ∃ ids p, p₀.runCalls cs = .ok (ids, p) ∧
      0 < p.activeContextsCount ∧ p.contexts.length ≤ maxPoolSize ∧
      (∃ i, activeAt p.contexts i = true ∧
        (∃ k < p.contexts.length, i = (p.next + k) % p.contexts.length ∧
          ∀ j < k, activeAt p.contexts ((p.next + j) % p.contexts.length) = false) ∧
        p.getContextRoundRobin = .ok (i, { p with
          contexts := p.contexts.modify LSContext.hold i
          next := (i + 1) % p.contexts.length }) ∧
        ∀ j, (p.contexts.modify LSContext.hold i)[j]? =
          p.contexts[j]?.map fun c => if j = i then { c with holdCnt := c.holdCnt + 1 } else c) ∧
      (∀ cs' : List Call, (∀ c ∈ cs', c = .getContextRoundRobin ∨ ∃ i, c = .unhold i) →
        cs'.count .getContextRoundRobin = p.activeContextsCount →
        ∃ ids' q, p.runCalls cs' = .ok (ids', q) ∧ ids'.Nodup ∧
          ∀ i, i ∈ ids' ↔ activeAt p.contexts i = true) ∧
      (∀ i c, p.contexts[i]? = some c → 0 < c.holdCnt → (p.deactivateContext i).1 = p) ∧
      (∀ i, ((∃ e, (p.deactivateContext i).2 = .error e) ∨
        (p.deactivateContext i).2 = .ok ebusy) → (p.deactivateContext i).1 = p) := by
  obtain ⟨ids, p, hrun, hr, hcap⟩ := (Reachable.new h1 hnew).runCalls cs
  have hi := reachable_inv hr
  refine ⟨ids, p, hrun, hi.active, hi.bounded.trans (hcap.trans (new_capacity hnew)).le,
    (getContextRoundRobin_ok hi.next_lt hi.active).imp fun i ⟨ha, hk, hg⟩ =>
      ⟨ha, hk, hg, getElem?_modify_hold _ i⟩, fun cs' hcs hk => ?fair,
    fun i c hc hh => ?held, fun i he => ?err⟩
  case fair =>
    have hk' : cs'.count .getContextRoundRobin = (order p.contexts p.next).length := by
      rw [hk, length_order]; rfl
    obtain ⟨q, hq⟩ := runCalls_gets hi.next_lt hcs hk'.le
    rw [hk', List.take_length] at hq
    exact ⟨_, q, hq, nodup_order _ _, fun i => mem_order⟩
  case held =>
    refine (deactivateContext_cases p i).resolve_right fun ⟨c', hc', h0, _⟩ => ?_
    rw [hc] at hc'
    cases hc'
    omega
  case err =>
    refine (deactivateContext_cases p i).resolve_right fun ⟨c, _, _, h⟩ => ?_
    rw [h] at he
    rcases he with ⟨e, he⟩ | he <;> cases he

theorem context_pool_laws_after_calls :
    ∃ p₀, new 2 3 1 = .ok p₀ ∧
    ∃ ids p, p₀.runCalls [.getContextRoundRobin, .deactivateContext 0, .unhold 0,
        .deactivateContext 0, .addContext 4] = .ok (ids, p) ∧
      0 < p.activeContextsCount ∧ p.contexts.length ≤ 3 ∧
      (∃ i, activeAt p.contexts i = true ∧
        (∃ k < p.contexts.length, i = (p.next + k) % p.contexts.length ∧
          ∀ j < k, activeAt p.contexts ((p.next + j) % p.contexts.length) = false) ∧
        p.getContextRoundRobin = .ok (i, { p with
          contexts := p.contexts.modify LSContext.hold i
          next := (i + 1) % p.contexts.length }) ∧
        ∀ j, (p.contexts.modify LSContext.hold i)[j]? =
          p.contexts[j]?.map fun c => if j = i then { c with holdCnt := c.holdCnt + 1 } else c) ∧
      (∀ cs' : List Call, (∀ c ∈ cs', c = .getContextRoundRobin ∨ ∃ i, c = .unhold i) →
        cs'.count .getContextRoundRobin = p.activeContextsCount →
        ∃ ids' q, p.runCalls cs' = .ok (ids', q) ∧ ids'.Nodup ∧
          ∀ i, i ∈ ids' ↔ activeAt p.contexts i = true) ∧
      (∀ i c, p.contexts[i]? = some c → 0 < c.holdCnt → (p.deactivateContext i).1 = p) ∧
      (∀ i, ((∃ e, (p.deactivateContext i).2 = .error e) ∨
        (p.deactivateContext i).2 = .ok ebusy) → (p.deactivateContext i).1 = p) :=
  ⟨_, rfl, @context_pool_laws 2 3 1 _ (by decide) rfl _⟩

/-! ### Thread counts -/

/-- `add_context` with a thread count outside `1..64` can leave a context with no thread. -/
theorem add_context_leaves_threadless_context (p : LSContextPool) (n : Nat) (hn : n < 1 ∨ 64 < n) :
    (reuseFirst n p.contexts = none → p.contexts.length < p.capacity →
      ∃ e, p.addContext n = ({ p with contexts := p.contexts ++ [LSContext.new] }, .error e)) ∧
    (∀ cs, reuseFirst n p.contexts = some cs →
      p.addContext n = ({ p with contexts := cs }, .ok ()) ∧
      ∃ c ∈ cs, c.active = true ∧ c.numThreads = some n ∧ c.threads = n) := by
  refine ⟨fun hr hroom => ?_, fun cs hr => ⟨by simp only [addContext, hr], ?_⟩⟩
  · have hs : ∃ e, LSContext.new.setNumThreads n = .error e := by
      unfold LSContext.setNumThreads
      split_ifs <;> first | exact ⟨_, rfl⟩ | omega
    obtain ⟨e, he⟩ := hs
    exact ⟨e, by simp only [addContext, hr, if_neg (Nat.ne_of_lt hroom), he]⟩
  · exact reuseFirst_mem hr

theorem add_context_zero_threads :
    ∃ p q, new 1 2 1 = .ok p ∧ (new 2 2 1).map (fun r => (r.deactivateContext 1).1) = .ok q ∧
      reuseFirst 0 p.contexts = none ∧ p.contexts.length < p.capacity ∧
      (∃ e, p.addContext 0 = ({ p with contexts := p.contexts ++ [LSContext.new] }, .error e)) ∧
      ∃ cs, reuseFirst 0 q.contexts = some cs ∧ q.addContext 0 = ({ q with contexts := cs }, .ok ()) ∧
        ∃ c ∈ cs, c.active = true ∧ c.numThreads = some 0 ∧ c.threads = 0 :=
  ⟨_, _, rfl, rfl, rfl, by decide,
    (add_context_leaves_threadless_context _ 0 (.inl Nat.one_pos)).1 rfl (by decide), _, rfl,
    (add_context_leaves_threadless_context _ 0 (.inl Nat.one_pos)).2 _ rfl⟩

/-! ### The counters sessions and accepts keep -/

theorem getElem?_modify_eq_some {f : LSContext → LSContext} {cs : List LSContext} {i k : Nat}
    {c' : LSContext} (h : (cs.modify f i)[k]? = some c') :
    ∃ c, cs[k]? = some c ∧ c' = if i = k then f c else c := by
  rw [List.getElem?_modify, Option.map_eq_map, Option.map_eq_some'] at h
  obtain ⟨c, hc, rfl⟩ := h
  exact ⟨c, hc, rfl⟩

theorem reuseFirst_getElem? {n : Nat} : ∀ {cs cs' : List LSContext} {k : Nat} {c' : LSContext},
    reuseFirst n cs = some cs' → cs'[k]? = some c' →
      ∃ c, cs[k]? = some c ∧ c'.refCnt = c.refCnt ∧ c'.holdCnt = c.holdCnt ∧
        (c'.numThreads = c.numThreads ∨ c.reusable = true)
  | [], _, _, _, h, _ => by cases h
  | c :: cs, cs', k, c', h, hk => by
    simp only [reuseFirst] at h
    split at h
    · cases h
      cases k with
      | zero =>
        simp only [List.getElem?_cons_zero, Option.some.injEq] at hk
        exact ⟨c, List.getElem?_cons_zero, by rw [← hk]; rfl, by rw [← hk]; rfl, .inr ‹_›⟩
      | succ k =>
        rw [List.getElem?_cons_succ] at hk
        exact ⟨c', by rw [List.getElem?_cons_succ, hk], rfl, rfl, .inl rfl⟩
    · obtain ⟨cs'', h', rfl⟩ := Option.map_eq_some'.1 h
      cases k with
      | zero =>
        simp only [List.getElem?_cons_zero, Option.some.injEq] at hk
        exact ⟨c', by rw [hk, List.getElem?_cons_zero], rfl, rfl, .inl rfl⟩
      | succ k =>
        rw [List.getElem?_cons_succ] at hk
        simpa only [List.getElem?_cons_succ] using reuseFirst_getElem? h' hk

theorem getElem?_append_singleton {cs : List LSContext} {c₀ c' : LSContext} {k : Nat}
    (h : (cs ++ [c₀])[k]? = some c') : cs[k]? = some c' ∨ (cs.length ≤ k ∧ c' = c₀) := by
  by_cases hk : k < cs.length
  · rw [List.getElem?_append_left hk] at h
    exact .inl h
  · rw [List.getElem?_append_right (by omega)] at h
    rcases hd : k - cs.length with _ | d <;>
      simp only [hd, List.getElem?_cons_zero, List.getElem?_cons_succ, List.getElem?_nil,
        Option.some.injEq, reduceCtorEq] at h
    exact .inr ⟨by omega, h.symm⟩

theorem addContext_getElem? (p : LSContextPool) (n : Nat) {k : Nat} {c' : LSContext}
    (h : (p.addContext n).1.contexts[k]? = some c') :
    (∃ c, p.contexts[k]? = some c ∧ c'.refCnt = c.refCnt ∧ c'.holdCnt = c.holdCnt ∧
        (c'.numThreads = c.numThreads ∨ c.reusable = true)) ∨
      (p.contexts.length ≤ k ∧ c'.refCnt = 0 ∧ c'.holdCnt = 0) := by
  unfold addContext at h
  split at h
  · exact .inl (reuseFirst_getElem? ‹_› h)
  · have hnew : ∀ c₀ : LSContext, c₀.refCnt = 0 → c₀.holdCnt = 0 →
        (p.contexts ++ [c₀])[k]? = some c' →
        (∃ c, p.contexts[k]? = some c ∧ c'.refCnt = c.refCnt ∧ c'.holdCnt = c.holdCnt ∧
            (c'.numThreads = c.numThreads ∨ c.reusable = true)) ∨
          (p.contexts.length ≤ k ∧ c'.refCnt = 0 ∧ c'.holdCnt = 0) := fun c₀ h0 h1 ha =>
      (getElem?_append_singleton ha).imp (fun h => ⟨c', h, rfl, rfl, .inl rfl⟩)
        fun ⟨hl, he⟩ => ⟨hl, he ▸ h0, he ▸ h1⟩
    split at h
    · exact .inl ⟨c', h, rfl, rfl, .inl rfl⟩
    · split at h
      · rename_i c hc
        rw [LSContext.setNumThreads_eq_ok hc] at h
        exact hnew _ rfl rfl h
      · exact hnew _ rfl rfl h

theorem length_le_addContext (p : LSContextPool) (n : Nat) :
    p.contexts.length ≤ (p.addContext n).1.contexts.length := by
  unfold addContext
  split
  · exact (reuseFirst_spec ‹_›).1.ge
  · split
    · exact le_rfl
    · split <;> simp

theorem new_counters {poolSize maxPoolSize threadMultiplier : Nat} {p : LSContextPool}
    (h : new poolSize maxPoolSize threadMultiplier = .ok p) {k : Nat} {c : LSContext}
    (hk : p.contexts[k]? = some c) : c.refCnt = 0 ∧ c.holdCnt = 0 := by
  obtain ⟨q, hf, rfl⟩ := new_eq_ok h
  have key : ∀ (l : List Nat) (p q : LSContextPool),
      (∀ (k : Nat) (c : LSContext), p.contexts[k]? = some c → c.refCnt = 0 ∧ c.holdCnt = 0) →
      l.foldlM (fun p _ => p.addContextOrThrow threadMultiplier) p = .ok q →
      ∀ (k : Nat) (c : LSContext), q.contexts[k]? = some c → c.refCnt = 0 ∧ c.holdCnt = 0 := by
    intro l
    induction l with
    | nil => intro p q hp h; cases h; exact hp
    | cons a l ih =>
      intro p q hp h
      simp only [List.foldlM_cons, addContextOrThrow] at h
      split at h
      · rename_i p' hp'
        refine ih p' q (fun k c hk => ?_) h
        have hk' : (p.addContext threadMultiplier).1.contexts[k]? = some c := by rw [hp']; exact hk
        rcases addContext_getElem? p threadMultiplier hk' with ⟨c₀, h₀, hr, hh, -⟩ | ⟨-, hr, hh⟩
        · rw [hr, hh]; exact hp k c₀ h₀
        · exact ⟨hr, hh⟩
      · cases h
  exact key _ _ _ (fun k c hk => by simp at hk) hf k c hk

theorem getContextRoundRobin_eq_ok {p p' : LSContextPool} {i : Nat}
    (h : p.getContextRoundRobin = .ok (i, p')) :
    i < p.contexts.length ∧
      p' = { p with contexts := p.contexts.modify LSContext.hold i, next := p'.next } := by
  unfold getContextRoundRobin at h
  split at h
  · rename_i hn
    split at h
    · rename_i j n hr
      cases h
      exact ⟨activeAt_lt (roundRobinLoop_eq_some hn hr).1, rfl⟩
    · cases h
  · cases h

end LSContextPool

end LServer
