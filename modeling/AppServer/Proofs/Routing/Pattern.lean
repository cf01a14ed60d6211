import AppServer.Routing.Pattern
import Mathlib.Data.List.Forall2

/-!
# Patterns that accept a common path

Acceptance and overlap compare two lists position by position. Two patterns are rivals when they
have equally many parameters and overlap; rivals are what a router keeps apart, since of two
patterns that accept one path and are no rivals one is strictly more specific.
-/

namespace AppServer.Routing

namespace Segment

@[simp] theorem overlaps_self (s : Segment) : s.overlaps s = true := by
  cases s <;> simp [overlaps]

theorem overlaps_comm (a b : Segment) : a.overlaps b = b.overlaps a := by
  cases a with
  | literal x =>
      cases b with
      | literal y =>
          rw [Bool.eq_iff_iff]
          simp only [overlaps, beq_iff_eq]
          exact eq_comm
      | param _ => rfl
  | param _ => cases b <;> rfl

/-- Two segments that accept one text overlap. -/
theorem overlaps_of_accepts {a b : Segment} {value : String}
    (ha : a.accepts value = true) (hb : b.accepts value = true) : a.overlaps b = true := by
  cases a with
  | literal x =>
      cases b with
      | literal y =>
          simp only [accepts, beq_iff_eq] at ha hb
          simp [overlaps, ha, hb]
      | param _ => rfl
  | param _ => cases b <;> rfl

end Segment

namespace Pattern

/-- Both comparisons of a pattern with a list go through the two of them in step. -/
theorem all_zip_iff_forall₂ {α β : Type} (R : α → β → Bool) (xs : List α) (ys : List β) :
    (xs.length == ys.length && (xs.zip ys).all fun (x, y) => R x y) = true ↔
      List.Forall₂ (fun x y => R x y = true) xs ys := by
  rw [List.forall₂_iff_zip, Bool.and_eq_true, beq_iff_eq, List.all_eq_true]
  constructor
  · rintro ⟨hlen, hall⟩
    exact ⟨hlen, fun h => hall _ h⟩
  · rintro ⟨hlen, hall⟩
    exact ⟨hlen, fun xy h => hall h⟩

theorem accepts_iff {p : Pattern} {path : List String} :
    p.accepts path = true ↔
      List.Forall₂ (fun s value => s.accepts value = true) p.segments path :=
  all_zip_iff_forall₂ _ _ _

theorem overlaps_iff {p q : Pattern} :
    p.overlaps q = true ↔
      List.Forall₂ (fun a b => a.overlaps b = true) p.segments q.segments :=
  all_zip_iff_forall₂ _ _ _

theorem length_of_accepts {p : Pattern} {path : List String} (h : p.accepts path = true) :
    p.length = path.length :=
  (accepts_iff.mp h).length_eq

theorem length_of_overlaps {p q : Pattern} (h : p.overlaps q = true) : p.length = q.length :=
  (overlaps_iff.mp h).length_eq

@[simp] theorem overlaps_self (p : Pattern) : p.overlaps p = true := by
  rw [overlaps_iff, List.forall₂_same]
  exact fun s _ => s.overlaps_self

theorem overlaps_comm (p q : Pattern) : p.overlaps q = q.overlaps p := by
  rw [Bool.eq_iff_iff, overlaps_iff, overlaps_iff]
  constructor
  · intro h
    exact h.flip.imp fun a b hab => by rwa [Segment.overlaps_comm]
  · intro h
    exact h.flip.imp fun a b hab => by rwa [Segment.overlaps_comm]

/-- Two patterns that accept one path overlap. -/
theorem overlaps_of_accepts {p q : Pattern} {path : List String}
    (hp : p.accepts path = true) (hq : q.accepts path = true) : p.overlaps q = true := by
  rw [accepts_iff] at hp hq
  rw [overlaps_iff]
  generalize p.segments = ss at hp
  generalize q.segments = ts at hq
  induction hp generalizing ts with
  | nil =>
      cases hq
      exact .nil
  | cons ha _ ih =>
      cases hq with
      | cons hb hrest => exact .cons (Segment.overlaps_of_accepts ha hb) (ih _ hrest)

/-- Patterns between which specificity does not decide although a path may fit both. -/
def Rivals (p q : Pattern) : Prop :=
  p.paramCount = q.paramCount ∧ p.overlaps q = true

instance (p q : Pattern) : Decidable (p.Rivals q) :=
  inferInstanceAs (Decidable (_ ∧ _))

theorem Rivals.refl (p : Pattern) : p.Rivals p :=
  ⟨rfl, p.overlaps_self⟩

theorem Rivals.symm {p q : Pattern} (h : p.Rivals q) : q.Rivals p :=
  ⟨h.1.symm, by rw [overlaps_comm]; exact h.2⟩

theorem Rivals.length_eq {p q : Pattern} (h : p.Rivals q) : p.length = q.length :=
  length_of_overlaps h.2

/-- Of two patterns for one path that are no rivals, one has fewer parameters. -/
theorem paramCount_ne_of_accepts {p q : Pattern} {path : List String} (h : ¬ p.Rivals q)
    (hp : p.accepts path = true) (hq : q.accepts path = true) : p.paramCount ≠ q.paramCount :=
  fun hcount => h ⟨hcount, overlaps_of_accepts hp hq⟩

end Pattern

end AppServer.Routing
