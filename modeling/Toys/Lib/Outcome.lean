import Mathlib

namespace Toys.Lib

/-!
# Library — programs that change a state and can fail

A program of `EStateM ε σ α` maps a state to a value and a state, or to an error and a state.

* `bind_apply`, `get_apply`, … — how a program is executed;
* `Post` — what holds in the end, whether the program returns or fails;
* `Post.bind`, `Post.ite`, … — one rule for each way to build a program.
-/

variable {ε σ α β : Type}

/-! ### Execution -/

theorem pure_apply (a : α) (s : σ) : (pure a : EStateM ε σ α) s = .ok a s := rfl

theorem get_apply (s : σ) : (get : EStateM ε σ σ) s = .ok s s := rfl

theorem set_apply (s s' : σ) : (set s' : EStateM ε σ PUnit) s = .ok ⟨⟩ s' := rfl

theorem modify_apply (f : σ → σ) (s : σ) : (modify f : EStateM ε σ PUnit) s = .ok ⟨⟩ (f s) := rfl

theorem bind_apply (x : EStateM ε σ α) (f : α → EStateM ε σ β) (s : σ) :
    (x >>= f) s = match x s with
      | .ok a s' => f a s'
      | .error e s' => .error e s' := rfl

theorem bind_ok {x : EStateM ε σ α} {f : α → EStateM ε σ β} {s s' : σ} {a : α}
    (h : x s = .ok a s') : (x >>= f) s = f a s' := by
  rw [bind_apply, h]

theorem bind_error {x : EStateM ε σ α} {f : α → EStateM ε σ β} {s s' : σ} {e : ε}
    (h : x s = .error e s') : (x >>= f) s = .error e s' := by
  rw [bind_apply, h]

/-! ### Postconditions -/

/-- Whether the program returns or fails, what it ends with has the given property. -/
def Post (x : EStateM ε σ α) (s : σ) (P : α → σ → Prop) (E : ε → σ → Prop) : Prop :=
  match x s with
  | .ok a s' => P a s'
  | .error e s' => E e s'

variable {x : EStateM ε σ α} {f : α → EStateM ε σ β} {s s' : σ} {a : α} {e : ε}
variable {P P' : α → σ → Prop} {Q : β → σ → Prop} {E E' : ε → σ → Prop}

/-- What holds of a result. -/
theorem Post.of_ok (h : Post x s P E) (hx : x s = .ok a s') : P a s' := by
  rw [Post, hx] at h
  exact h

/-- What holds of an error. -/
theorem Post.of_error (h : Post x s P E) (hx : x s = .error e s') : E e s' := by
  rw [Post, hx] at h
  exact h

/-- A postcondition holds if it does of each outcome. -/
theorem Post.intro (hok : ∀ a s', x s = .ok a s' → P a s')
    (herror : ∀ e s', x s = .error e s' → E e s') : Post x s P E := by
  unfold Post
  cases hx : x s with
  | ok a s' => exact hok a s' hx
  | error e s' => exact herror e s' hx

/-- A postcondition may be weakened. -/
theorem Post.mono (h : Post x s P E) (hP : ∀ a s', P a s' → P' a s')
    (hE : ∀ e s', E e s' → E' e s') : Post x s P' E' :=
  Post.intro (fun _ _ hx => hP _ _ (h.of_ok hx)) fun _ _ hx => hE _ _ (h.of_error hx)

/-- A program and then another one, which starts from what the first one returns. -/
theorem Post.bind (hx : Post x s P E) (hf : ∀ a s', P a s' → Post (f a) s' Q E) :
    Post (x >>= f) s Q E := by
  unfold Post
  rw [bind_apply]
  cases h : x s with
  | ok a s' => exact hf a s' (hx.of_ok h)
  | error e s' => exact hx.of_error h

/-- The rule of a read of the state. -/
theorem post_get_bind {g : σ → EStateM ε σ β} (h : Post (g s) s Q E) : Post (get >>= g) s Q E := h

/-- The rule of a branch. -/
theorem Post.ite {c : Prop} [Decidable c] {y : EStateM ε σ α} (hx : c → Post x s P E)
    (hy : ¬ c → Post y s P E) : Post (if c then x else y) s P E := by
  split_ifs with hc
  · exact hx hc
  · exact hy hc

end Toys.Lib
