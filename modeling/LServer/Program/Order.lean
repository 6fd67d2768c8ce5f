import LServer.Program.TryParse
import LServer.Program.Heap
/-!
The order in which `Program::feed` runs a parsed program's instructions, over every run of `feed`
calls taken one loop iteration at a time (`FeedStep`): a prefix of the queue, each when due.
-/

set_option autoImplicit false

namespace LServer

def ExecOrder (a b : BaseOp) : Prop := a.execPoint ≤ b.execPoint

instance (a b : BaseOp) : Decidable (ExecOrder a b) := Nat.decLe _ _

theorem pushLine_built {q q' : List OpPtr} {kv : Bytes × Json} (hq : Heap.Built q)
    (h : pushLine q kv = .ok q') : Heap.Built q' := by
  unfold pushLine at h
  split at h
  · cases h
  · split at h
    · cases h
    · cases h
    · split at h
      · cases h
      · exact hq.emplace h

theorem programOfText_queue {text : Bytes} {q : List OpPtr} (h : programOfText text = .ok q) :
    (∃ xs : List BaseOp, q = xs.map some ∧ xs.Pairwise ExecOrder) ∨ q = [none] := by
  unfold programOfText at h
  split at h
  · cases h
  · obtain ⟨heap, hb, hs⟩ := Outcome.bind_eq_ok h
    have hbuilt : Heap.Built heap := Outcome.foldlM_inv Heap.Built (fun q inst q' hq h' => by
        split at h'
        · cases h'
        · exact Outcome.foldlM_inv Heap.Built (fun _ _ _ => pushLine_built) _ hq h')
      _ (.inl ⟨fun _ _ h => absurd h (Nat.not_lt_zero _), fun _ h => absurd h (List.not_mem_nil _)⟩) hb
    rcases hbuilt.serveOrder with ⟨xs, hxs, hn, hp⟩ | hxs <;> rw [hxs] at hs <;> cases hs
    · obtain ⟨ys, rfl⟩ := hn.eq_map_some
      have hys := List.pairwise_map.1 hp
      exact .inl ⟨ys, rfl, hys⟩
    · exact .inr rfl

/-- A parsed program is served by trigger point, or is the null `OpPtr` alone. -/
theorem tryParse_queue {data : Nat → UInt8} {len c : Nat} {p : Program}
    (h : tryParse data len = .ok (.success p c)) :
    (∃ xs : List BaseOp, p.instructions = xs.map some ∧ xs.Pairwise ExecOrder) ∨
      p.instructions = [none] := by
  unfold tryParse at h
  split at h
  · cases h
  · split at h
    · cases h
    · split at h
      · cases h
      · split at h
        · cases h
        · split at h <;> try cases h
          exact programOfText_queue ‹_›

/-! ### Runs of `feed` calls, iteration by iteration -/

structure FeedState where
  prog : Program
  looping : Bool
  ran : List (BaseOp × Nat)

/-- One step of a run of `feed` calls, one loop iteration at a time. -/
inductive FeedStep : FeedState → FeedState → Prop
  | call {p : Program} {ran : List (BaseOp × Nat)} (len : Nat) :
      FeedStep ⟨p, false, ran⟩ ⟨{ p with bytesProcessedCnt := p.bytesProcessedCnt + len }, true, ran⟩
  | run {p : Program} {ran : List (BaseOp × Nat)} {op : BaseOp} {rest : List OpPtr} :
      p.cancellationRequest = false → p.instructions = some op :: rest →
      op.execPoint ≤ p.bytesProcessedCnt →
      FeedStep ⟨p, true, ran⟩
        ⟨{ (op.run p).1 with instructions := rest }, true, ran ++ [(op, p.bytesProcessedCnt)]⟩
  | spin {p : Program} {ran : List (BaseOp × Nat)} {op : BaseOp} {rest : List OpPtr} :
      p.cancellationRequest = false → p.instructions = some op :: rest →
      p.bytesProcessedCnt < op.execPoint → FeedStep ⟨p, true, ran⟩ ⟨p, true, ran⟩
  | exit {p : Program} {ran : List (BaseOp × Nat)} (eof : Bool) :
      (p.cancellationRequest || p.instructions.isEmpty) = true →
      FeedStep ⟨p, true, ran⟩ ⟨{ p with finished := eof }, false, ran⟩

open Relation

theorem feedLoop_steps {n : Nat} {p p' : Program} {calls : List VmCall}
    (h : p.feedLoop n = .ok (p', calls)) (ran : List (BaseOp × Nat)) :
    ∃ ran', ReflTransGen FeedStep ⟨p, true, ran⟩ ⟨p', true, ran'⟩ ∧
      (p'.cancellationRequest || p'.instructions.isEmpty) = true := by
  induction n generalizing p ran calls with
  | zero =>
    unfold Program.feedLoop at h
    split at h
    · cases h; exact ⟨ran, .refl, ‹_›⟩
    · cases h
  | succ n ih =>
    unfold Program.feedLoop at h
    split at h
    · cases h; exact ⟨ran, .refl, by simp [*]⟩
    · rename_i hc
      have hc : p.cancellationRequest = false := Bool.eq_false_iff.2 hc
      split at h
      · rename_i hp; cases h; exact ⟨ran, .refl, by simp [hp]⟩
      · cases h
      · rename_i op rest hp
        split at h
        · obtain ⟨⟨q, cs⟩, hr, he⟩ := Outcome.map_eq_ok h
          cases he
          obtain ⟨ran', hs, hg⟩ := ih hr (ran ++ [(op, p.bytesProcessedCnt)])
          exact ⟨ran', .head (.run hc hp ‹_›) hs, hg⟩
        · obtain ⟨ran', hs, hg⟩ := ih h ran
          exact ⟨ran', .head (.spin hc hp (Nat.lt_of_not_le ‹_›)) hs, hg⟩

theorem feed_steps {p p' : Program} {len : Nat} {eof : Bool} {calls : List VmCall}
    (h : p.feed len eof = .ok (p', calls)) (ran : List (BaseOp × Nat)) :
    ∃ ran', ReflTransGen FeedStep ⟨p, false, ran⟩ ⟨p', false, ran'⟩ := by
  obtain ⟨⟨q, cs⟩, hr, he⟩ := Outcome.map_eq_ok h
  cases he
  obtain ⟨ran', hs, hg⟩ := feedLoop_steps hr ran
  exact ⟨ran', .head (.call len) (hs.tail (.exit eof hg))⟩

def FeedState.Done (xs : List BaseOp) (s : FeedState) : Prop :=
  ∃ k, s.ran.map Prod.fst = xs.take k ∧ s.prog.instructions = (xs.drop k).map some ∧
    ∀ r ∈ s.ran, r.1.execPoint ≤ r.2

theorem FeedStep.done {xs : List BaseOp} {s s' : FeedState} (hs : FeedStep s s')
    (hd : s.Done xs) : s'.Done xs := by
  obtain ⟨k, hk, hq, hdue⟩ := hd
  cases hs with
  | call => exact ⟨k, hk, hq, hdue⟩
  | @run p ran op rest hc hp hle =>
    rw [hp] at hq
    obtain ⟨ys, hys, rfl⟩ : ∃ ys, xs.drop k = op :: ys ∧ rest = ys.map some := by
      cases hx : xs.drop k with
      | nil => rw [hx] at hq; cases hq
      | cons y ys =>
        rw [hx, List.map_cons, List.cons.injEq, Option.some.injEq] at hq
        exact ⟨ys, by rw [hq.1], hq.2⟩
    refine ⟨k + 1, ?_, ?_, fun r hr => ?_⟩
    · rw [List.map_append, hk, List.take_add, hys]; rfl
    · rw [← List.drop_drop, hys]; rfl
    · rcases List.mem_append.1 hr with hr | hr
      · exact hdue r hr
      · rw [List.mem_singleton.1 hr]; exact hle
  | spin => exact ⟨k, hk, hq, hdue⟩
  | exit => exact ⟨k, hk, hq, hdue⟩

theorem feed_runs_in_order {p : Program} {xs : List BaseOp} (hp : p.instructions = xs.map some)
    (hs : xs.Pairwise ExecOrder) {s : FeedState} (hr : ReflTransGen FeedStep ⟨p, false, []⟩ s) :
    ∃ k, s.ran.map Prod.fst = xs.take k ∧ s.prog.instructions = (xs.drop k).map some ∧
      (∀ r ∈ s.ran, r.1.execPoint ≤ r.2) ∧
      (s.ran.map fun r => r.1.execPoint).Pairwise (· ≤ ·) := by
  have hd : s.Done xs := by
    induction hr with
    | refl => exact ⟨0, rfl, hp, fun _ h => nomatch h⟩
    | tail _ hs ih => exact hs.done ih
  obtain ⟨k, hk, hq, hdue⟩ := hd
  refine ⟨k, hk, hq, hdue, ?_⟩
  have ho : (s.ran.map Prod.fst).Pairwise ExecOrder := hk ▸ hs.sublist (List.take_sublist k xs)
  have ho' := List.pairwise_map.1 ho
  exact List.pairwise_map.2 ho'

/-- Any run of `feed` on a parsed program runs a prefix of its queue, each when due. -/
theorem parsed_program_runs_in_order {data : Nat → UInt8} {len c : Nat} {p : Program}
    (h : tryParse data len = .ok (.success p c)) (hn : p.instructions ≠ [none]) {s : FeedState}
    (hr : ReflTransGen FeedStep ⟨p, false, []⟩ s) :
    ∃ k, s.ran.map (fun r => some r.1) = p.instructions.take k ∧
      s.prog.instructions = p.instructions.drop k ∧ (∀ r ∈ s.ran, r.1.execPoint ≤ r.2) ∧
      (s.ran.map fun r => r.1.execPoint).Pairwise (· ≤ ·) := by
  obtain ⟨xs, hp, hs⟩ := (tryParse_queue h).resolve_right hn
  obtain ⟨k, hk, hq, hdue, hord⟩ := feed_runs_in_order hp hs hr
  refine ⟨k, ?_, by rw [hq, hp, List.map_drop], hdue, hord⟩
  rw [hp, ← List.map_take, ← hk, List.map_map]
  rfl

theorem parsed_program_runs_in_order_on_two :
    ∃ (p : Program) (s : FeedState),
      tryParse (bufferAt (ascii "43\n[\x7b\"3\":\x7b\"LOCK\":\"1\"\x7d\x7d,\x7b\"1\":\x7b\"DOWNLOAD\":\"5\"\x7d\x7d]")
        fun _ => 0) 46 = .ok (.success p 46) ∧
      p.instructions = [some ⟨.downloadOp, 1, 5⟩, some ⟨.lockOp, 3, 1⟩] ∧
      ReflTransGen FeedStep ⟨p, false, []⟩ s ∧ s.ran = [(⟨.downloadOp, 1, 5⟩, 2)] ∧
      ∃ k, s.ran.map (fun r => some r.1) = p.instructions.take k ∧
        s.prog.instructions = p.instructions.drop k ∧ (∀ r ∈ s.ran, r.1.execPoint ≤ r.2) ∧
        (s.ran.map fun r => r.1.execPoint).Pairwise (· ≤ ·) :=
  have ht : tryParse (bufferAt
      (ascii "43\n[\x7b\"3\":\x7b\"LOCK\":\"1\"\x7d\x7d,\x7b\"1\":\x7b\"DOWNLOAD\":\"5\"\x7d\x7d]")
        fun _ => 0) 46 = .ok (.success { Program.empty with
          instructions := [some ⟨.downloadOp, 1, 5⟩, some ⟨.lockOp, 3, 1⟩] } 46) := by
    decide
  have hr := ReflTransGen.tail (ReflTransGen.single (FeedStep.call 2)) (FeedStep.run rfl rfl
    (by decide))
  ⟨_, _, ht, rfl, hr, rfl, parsed_program_runs_in_order ht (by decide) hr⟩

/-- With a null `OpPtr` at the top of the queue, `feed` reads through it. -/
theorem feed_null_instruction {p : Program} {rest : List OpPtr}
    (hc : p.cancellationRequest = false) (hp : p.instructions = none :: rest) (len : Nat)
    (eof : Bool) : p.feed len eof = .undefined := by
  rw [Program.feed, Program.feedLoop_null
    (p := { p with bytesProcessedCnt := p.bytesProcessedCnt + len }) hc hp]
  rfl

theorem feed_null_instruction_after_unknown_opcode :
    tryParse (bufferAt (ascii "19\n[\x7b\"5\":\x7b\"BAR\":\"2\"\x7d\x7d]") fun _ => 0) 22 =
      .ok (.success { Program.empty with instructions := [none] } 22) ∧
    { Program.empty with instructions := [none], vm := true }.feed 3 true = .undefined :=
  ⟨by decide, feed_null_instruction rfl rfl 3 true⟩

end LServer
