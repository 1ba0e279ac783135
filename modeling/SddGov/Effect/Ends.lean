import SddGov.Effect.Check

/-!
# How a check ends

`Ends caught p Q`: where `p` raises, the exception is a caught one, and where it
returns, `Q` holds of the result. It is the weakest condition under which `p`
ends so, and it goes through sequences (`ends_bind`) and loops (`ends_loop`).
-/

namespace SddGov.Effect

variable {E M α β σ : Type}

namespace Check

/-- Raises a caught exception only, or returns a result with `Q`. -/
def Ends (caught : E → Bool) (p : Check E M α) (Q : α → Prop) : Prop :=
  match p with
  | .error e => caught e = true
  | .ok (a, _) => Q a

variable {caught : E → Bool}

@[simp] theorem ends_pure {a : α} {Q : α → Prop} :
    Ends caught (pure a : Check E M α) Q ↔ Q a := Iff.rfl

/-- A check ends behind another one if it ends for what that one gives. -/
@[simp] theorem ends_bind {p : Check E M α} {f : α → Check E M β} {Q : β → Prop} :
    Ends caught (p >>= f) Q ↔ Ends caught p fun a => Ends caught (f a) Q := by
  show Ends caught (andThen p f) Q ↔ _
  unfold andThen
  rcases p with e | ⟨a, messages⟩
  · exact Iff.rfl
  · show Ends caught _ Q ↔ Ends caught (f a) Q
    dsimp only
    cases f a with
    | error e => exact Iff.rfl
    | ok result => exact Iff.rfl

@[simp] theorem ends_report {message : M} {Q : Unit → Prop} :
    Ends caught (report message : Check E M Unit) Q ↔ Q () := Iff.rfl

@[simp] theorem ends_reportIf {c : Bool} {message : M} {Q : Unit → Prop} :
    Ends caught (reportIf c message : Check E M Unit) Q ↔ Q () := by
  unfold reportIf
  cases c <;> exact Iff.rfl

@[simp] theorem ends_reportAll {messages : List M} {Q : Unit → Prop} :
    Ends caught (reportAll messages : Check E M Unit) Q ↔ Q () := Iff.rfl

@[simp] theorem ends_raise {e : E} {Q : α → Prop} :
    Ends caught (raise e : Check E M α) Q ↔ caught e = true := Iff.rfl

@[simp] theorem ends_lift_ok {a : α} {Q : α → Prop} :
    Ends caught (lift (.ok a) : Check E M α) Q ↔ Q a := Iff.rfl

@[simp] theorem ends_lift_error {e : E} {Q : α → Prop} :
    Ends caught (lift (.error e) : Check E M α) Q ↔ caught e = true := Iff.rfl

/-- What a loop needs: each element is handled in the state before it, and unless the loop stops
there, so are those behind it. -/
def Through (handled stops : σ → α → Prop) (next : σ → α → σ) (Q : σ → Prop) : σ → List α → Prop
  | s, [] => Q s
  | s, x :: xs => handled s x ∧ (¬ stops s x → Through handled stops next Q (next s x) xs)

/-- A loop ends if each of its steps does, up to the one that stops it. -/
theorem ends_loop {f : σ → Nat → α → Check E M σ} {handled stops : σ → α → Prop} {next : σ → α → σ}
    (hstep : ∀ s index x Q, Ends caught (f s index x) Q ↔ handled s x
      ∧ (¬ stops s x → Q (next s x)))
    (s : σ) (index : Nat) (xs : List α) (Q : σ → Prop) :
    Ends caught (loop f s index xs) Q ↔ Through handled stops next Q s xs := by
  induction xs generalizing s index with
  | nil => exact Iff.rfl
  | cons x xs ih =>
    -- the rest of the loop runs in the state the first step leaves, if it leaves one
    show Ends caught (f s index x >>= fun s' => loop f s' (index + 1) xs) Q ↔ _
    rw [ends_bind, hstep, ih]
    exact Iff.rfl

/-- Where nothing is asked of the elements, and whether the loop stops is a matter of the
element. -/
theorem through_forall {stops : α → Prop} {next : σ → α → σ} {P : Prop} {s : σ} {xs : List α} :
    Through (fun _ _ => True) (fun _ x => stops x) next (fun _ => P) s xs
      ↔ ((∀ x ∈ xs, ¬ stops x) → P) := by
  induction xs generalizing s with
  | nil => simp [Through]
  | cons x xs ih =>
    unfold Through
    rw [ih, true_and, List.forall_mem_cons, and_imp]

/-- A loop without a state. -/
theorem ends_each {f : α → Check E M Unit} {g : α → Prop}
    (hstep : ∀ x Q, Ends caught (f x) Q ↔ g x ∧ Q ()) (index : Nat) (xs : List α)
    (Q : Unit → Prop) :
    Ends caught (loop (fun _ _ x => f x) () index xs) Q ↔ (∀ x ∈ xs, g x) ∧ Q () := by
  induction xs generalizing index with
  | nil => simp [loop]
  | cons x xs ih =>
    show Ends caught (f x >>= fun _ => loop (fun _ _ x => f x) () (index + 1) xs) Q ↔ _
    rw [ends_bind, hstep, ih, List.forall_mem_cons, and_assoc]

/-- Never raises. -/
def NeverRaises (p : Check E M α) : Prop := Ends (fun _ => false) p fun _ => True

theorem NeverRaises.ends {p : Check E M α} (h : NeverRaises p) {P : Prop} :
    (Ends caught p fun _ => P) ↔ P := by
  rcases p with e | ⟨a, messages⟩
  · exact absurd (show false = true from h) (by simp)
  · exact Iff.rfl

theorem NeverRaises.returns {p : Check E M α} (h : NeverRaises p) :
    ∃ a messages, p = .ok (a, messages) := by
  rcases p with e | ⟨a, messages⟩
  · exact absurd (show false = true from h) (by simp)
  · exact ⟨a, messages, rfl⟩

theorem NeverRaises.bind {p : Check E M α} {f : α → Check E M β} (hp : NeverRaises p)
    (hf : ∀ a, NeverRaises (f a)) : NeverRaises (p >>= f) := by
  unfold NeverRaises at hp hf ⊢
  rw [ends_bind]
  rcases p with e | ⟨a, messages⟩
  · exact hp
  · exact hf a

theorem NeverRaises.loop {f : σ → Nat → α → Check E M σ}
    (h : ∀ s index x, NeverRaises (f s index x))
    (s : σ) (index : Nat) (xs : List α) : NeverRaises (loop f s index xs) := by
  induction xs generalizing s index with
  | nil => trivial
  | cons x xs ih => exact (h s index x).bind fun s' => ih s' (index + 1)

end Check

end SddGov.Effect
