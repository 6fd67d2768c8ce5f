import Mathlib.Data.List.Basic

/-!
Bytes, and how a call of the server's C++ code ends: it returns, lets an exception out, does
something the language leaves undefined, or never returns. The source has all four on its path.
-/

set_option autoImplicit false

namespace LServer

abbrev Bytes := List UInt8

def ascii (s : String) : Bytes := s.toList.map fun c => c.toNat.toUInt8

/-- How a call ends: it returns, throws, is undefined behaviour, or never returns. -/
inductive Outcome (α : Type) where
  | ok (a : α)
  | thrown
  | undefined
  | hangs
  deriving DecidableEq, Repr

namespace Outcome

def bind {α β : Type} : Outcome α → (α → Outcome β) → Outcome β
  | ok a, f => f a
  | thrown, _ => thrown
  | undefined, _ => undefined
  | hangs, _ => hangs

instance : Monad Outcome where
  pure := ok
  bind := bind

@[simp] theorem ok_bind {α β : Type} (a : α) (f : α → Outcome β) : (ok a >>= f) = f a := rfl
@[simp] theorem thrown_bind {α β : Type} (f : α → Outcome β) : (thrown >>= f) = thrown := rfl
@[simp] theorem undefined_bind {α β : Type} (f : α → Outcome β) : (undefined >>= f) = undefined := rfl
@[simp] theorem hangs_bind {α β : Type} (f : α → Outcome β) : (hangs >>= f) = hangs := rfl
@[simp] theorem pure_eq {α : Type} (a : α) : (pure a : Outcome α) = ok a := rfl

@[simp] theorem map_ok {α β : Type} (f : α → β) (a : α) : f <$> ok a = ok (f a) := rfl
@[simp] theorem map_hangs {α β : Type} (f : α → β) : f <$> (hangs : Outcome α) = hangs := rfl
@[simp] theorem map_undefined {α β : Type} (f : α → β) :
    f <$> (undefined : Outcome α) = undefined := rfl
@[simp] theorem map_thrown {α β : Type} (f : α → β) : f <$> (thrown : Outcome α) = thrown := rfl

@[simp] theorem map_bind {α β γ : Type} (f : β → γ) (x : Outcome α) (g : α → Outcome β) :
    f <$> (x >>= g) = x >>= fun a => f <$> g a := by
  cases x <;> rfl

theorem map_map {α β γ : Type} (f : α → β) (g : β → γ) (x : Outcome α) :
    g <$> (f <$> x) = (fun a => g (f a)) <$> x := by
  cases x <;> rfl

theorem bind_congr {α β : Type} {x : Outcome α} {f g : α → Outcome β}
    (h : ∀ a, x = ok a → f a = g a) : (x >>= f) = (x >>= g) := by
  cases x <;> first | exact h _ rfl | rfl

theorem map_eq_ok {α β : Type} {f : α → β} {x : Outcome α} {b : β} (h : f <$> x = ok b) :
    ∃ a, x = ok a ∧ f a = b := by
  cases x with
  | ok a => exact ⟨a, rfl, Outcome.ok.inj h⟩
  | _ => cases h

theorem bind_eq_ok {α β : Type} {x : Outcome α} {f : α → Outcome β} {b : β}
    (h : (x >>= f) = ok b) : ∃ a, x = ok a ∧ f a = ok b := by
  cases x <;> first | exact ⟨_, rfl, h⟩ | cases h

theorem foldlM_inv {α β : Type} (P : β → Prop) {f : β → α → Outcome β}
    (hf : ∀ b a b', P b → f b a = ok b' → P b') :
    ∀ (l : List α) {b b' : β}, P b → l.foldlM f b = ok b' → P b'
  | [], _, _, hb, h => by cases h; exact hb
  | a :: l, b, _, hb, h => by
    rw [List.foldlM_cons] at h
    obtain ⟨b₁, h₁, h₂⟩ := bind_eq_ok h
    exact foldlM_inv P hf l (hf b a b₁ hb h₁) h₂

/-- Two outcomes alike: the same exception, undefined behaviour or hang, or related returns. -/
def Rel {α β : Type} (R : α → β → Prop) : Outcome α → Outcome β → Prop
  | ok a, ok b => R a b
  | thrown, thrown | undefined, undefined | hangs, hangs => True
  | _, _ => False

theorem Rel.bind {α β γ δ : Type} {R : α → β → Prop} {S : γ → δ → Prop} {x : Outcome α}
    {y : Outcome β} {f : α → Outcome γ} {g : β → Outcome δ} (h : Rel R x y)
    (hf : ∀ a b, R a b → Rel S (f a) (g b)) : Rel S (x >>= f) (y >>= g) := by
  cases x <;> cases y <;> first | exact hf _ _ h | exact h.elim | trivial

theorem Rel.map {α β γ δ : Type} {R : α → β → Prop} {S : γ → δ → Prop} {x : Outcome α}
    {y : Outcome β} {f : α → γ} {g : β → δ} (h : Rel R x y) (hf : ∀ a b, R a b → S (f a) (g b)) :
    Rel S (f <$> x) (g <$> y) := by
  cases x <;> cases y <;> first | exact hf _ _ h | exact h.elim | trivial

theorem Rel.mono {α β : Type} {R S : α → β → Prop} {x : Outcome α} {y : Outcome β}
    (h : Rel R x y) (hRS : ∀ a b, y = ok b → R a b → S a b) : Rel S x y := by
  cases x <;> cases y <;> first | exact hRS _ _ rfl h | exact h.elim | trivial

theorem Rel.map_eq {α γ : Type} {R : α → α → Prop} {x y : Outcome α} {f : α → γ}
    (h : Rel R x y) (hf : ∀ a b, R a b → f a = f b) : f <$> x = f <$> y := by
  cases x <;> cases y <;> first | exact congrArg ok (hf _ _ h) | exact h.elim | rfl

theorem Rel.bind_ok {α β γ δ : Type} {R : α → β → Prop} {S : γ → δ → Prop} {x : Outcome α}
    {y : Outcome β} {f : α → Outcome γ} {g : β → Outcome δ} (h : Rel R x y)
    (hf : ∀ a b, y = ok b → R a b → Rel S (f a) (g b)) : Rel S (x >>= f) (y >>= g) := by
  cases x <;> cases y <;> first | exact hf _ _ rfl h | exact h.elim | trivial

theorem rel_of_map_eq {α γ : Type} {f : α → γ} {x y : Outcome α} (h : f <$> x = f <$> y)
    {P : α → Prop} (hx : ∀ a, x = ok a → P a) (hy : ∀ b, y = ok b → P b) :
    Rel (fun a b => f a = f b ∧ P a ∧ P b) x y := by
  cases x <;> cases y <;> first | exact ⟨ok.inj h, hx _ rfl, hy _ rfl⟩ | trivial

end Outcome

theorem countP_set_of_getElem? {α : Type} (p : α → Bool) {l : List α} {t : Nat} {a : α}
    (h : l[t]? = some a) (b : α) :
    (l.set t b).countP p = l.countP p - (if p a then 1 else 0) + (if p b then 1 else 0) := by
  obtain ⟨ht, rfl⟩ := List.getElem?_eq_some_iff.1 h
  exact List.countP_set p l t b ht

theorem set_of_getElem? {α : Type} {l : List α} {i : Nat} {a : α} (h : l[i]? = some a) :
    l.set i a = l :=
  List.ext_getElem? fun j => by
    rw [List.getElem?_set']
    split
    · subst_vars; rw [h]; rfl
    · rfl

end LServer
