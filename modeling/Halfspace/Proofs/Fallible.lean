/-
Computations that may fail, taken apart.

A sequence succeeds when both parts do (`bind_eq_ok_iff`), and mapping over a list succeeds when every element does
(`mapM_eq_ok_iff`). Maps and folds of which the steps agree on a list have the same result, be it a failure
(`mapM_congr`, `foldlM_congr`). `Ends P E` says what holds of a result and what of a failure; sequences, folds and maps
have it from their steps (`Ends.bind`, `Ends.foldlM`, `Ends.mapM`).
-/
import Halfspace.Fault
import Mathlib.Tactic

namespace Halfspace

variable {α β ε : Type}

theorem bind_eq_ok_iff {x : Except ε α} {f : α → Except ε β} {b : β} :
    (x >>= f) = .ok b ↔ ∃ a, x = .ok a ∧ f a = .ok b := by
  cases x <;> simp [bind, Except.bind]

theorem map_eq_ok_iff {x : Except ε α} {f : α → β} {b : β} : x.map f = .ok b ↔ ∃ a, x = .ok a ∧ f a = b := by
  cases x <;> simp [Except.map]

theorem mapM_eq_ok_iff {f : α → Except ε β} {xs : List α} {ys : List β} :
    xs.mapM f = .ok ys ↔ List.Forall₂ (fun x y => f x = .ok y) xs ys := by
  induction xs generalizing ys with
  | nil =>
    rw [List.forall₂_nil_left_iff]
    exact ⟨fun h => (Except.ok.inj h).symm, fun h => by rw [h]; rfl⟩
  | cons x rest ih =>
    rw [List.mapM_cons, bind_eq_ok_iff, List.forall₂_cons_left_iff]
    simp only [bind_eq_ok_iff, ih]
    constructor
    · rintro ⟨y, hy, zs, hzs, h⟩
      exact ⟨y, zs, hy, hzs, (Except.ok.inj h).symm⟩
    · rintro ⟨y, zs, hy, hzs, rfl⟩
      exact ⟨y, hy, zs, hzs, rfl⟩

theorem exists_of_forall₂ {R : α → β → Prop} {xs : List α} {ys : List β} (h : List.Forall₂ R xs ys) {y : β}
    (hy : y ∈ ys) : ∃ x ∈ xs, R x y := by
  induction h with
  | nil => cases hy
  | cons hxy _ ih =>
    rcases List.mem_cons.1 hy with rfl | hy
    · exact ⟨_, List.mem_cons_self, hxy⟩
    · obtain ⟨x, hx, hxy⟩ := ih hy
      exact ⟨x, List.mem_cons_of_mem _ hx, hxy⟩

theorem mapM_ok {f : α → Except ε β} {g : α → β} {xs : List α} (h : ∀ x ∈ xs, f x = .ok (g x)) :
    xs.mapM f = .ok (xs.map g) :=
  mapM_eq_ok_iff.2 (List.forall₂_map_right_iff.2 (List.forall₂_same.2 h))

theorem exists_mapM_ok {f : α → Except ε β} {xs : List α} (h : ∀ x ∈ xs, ∃ y, f x = .ok y) :
    ∃ ys, xs.mapM f = .ok ys := by
  induction xs with
  | nil => exact ⟨[], rfl⟩
  | cons x rest ih =>
    obtain ⟨y, hy⟩ := h x List.mem_cons_self
    obtain ⟨ys, hys⟩ := ih fun z hz => h z (List.mem_cons_of_mem _ hz)
    exact ⟨y :: ys, mapM_eq_ok_iff.2 (.cons hy (mapM_eq_ok_iff.1 hys))⟩

theorem forall_of_mapM {f : α → Except ε β} {P : β → Prop} (hf : ∀ x y, f x = .ok y → P y) {xs : List α} {ys : List β}
    (h : xs.mapM f = .ok ys) : ∀ y ∈ ys, P y := by
  have hall := mapM_eq_ok_iff.1 h
  induction hall with
  | nil => simp
  | cons hy _ ih => exact List.forall_mem_cons.2 ⟨hf _ _ hy, ih (mapM_eq_ok_iff.2 ‹_›)⟩

theorem mapM_congr {f g : α → Except ε β} {xs : List α} (h : ∀ x ∈ xs, f x = g x) : xs.mapM f = xs.mapM g := by
  induction xs with
  | nil => rfl
  | cons x rest ih =>
    rw [List.mapM_cons, List.mapM_cons, h x List.mem_cons_self, ih fun y hy => h y (List.mem_cons_of_mem _ hy)]

theorem forM_eq_ok_iff {f : α → Except ε Unit} {xs : List α} : xs.forM f = .ok () ↔ ∀ x ∈ xs, f x = .ok () := by
  induction xs with
  | nil => simp [List.forM, pure, Except.pure]
  | cons x rest ih =>
    show (f x >>= fun _ => rest.forM f) = _ ↔ _
    rw [bind_eq_ok_iff, List.forall_mem_cons]
    exact ⟨fun ⟨_, hx, hrest⟩ => ⟨hx, ih.1 hrest⟩, fun ⟨hx, hrest⟩ => ⟨(), hx, ih.2 hrest⟩⟩

theorem foldlM_congr {f g : β → α → Except ε β} {xs : List α} (h : ∀ b, ∀ x ∈ xs, f b x = g b x) (b : β) :
    xs.foldlM f b = xs.foldlM g b := by
  induction xs generalizing b with
  | nil => rfl
  | cons x rest ih =>
    rw [List.foldlM_cons, List.foldlM_cons, h b x List.mem_cons_self]
    exact congrArg _ (funext fun b => ih (fun b y hy => h b y (List.mem_cons_of_mem _ hy)) b)

theorem foldlM_ok {f : β → α → Except ε β} {g : β → α → β} {xs : List α} (h : ∀ b, ∀ x ∈ xs, f b x = .ok (g b x))
    (b : β) : xs.foldlM f b = .ok (xs.foldl g b) := by
  induction xs generalizing b with
  | nil => rfl
  | cons x rest ih =>
    rw [List.foldlM_cons, h b x List.mem_cons_self]
    exact ih (fun b y hy => h b y (List.mem_cons_of_mem _ hy)) (g b x)

/-! ## Results and failures -/

/-- a computation ends with a result that has one property, or with a failure that has another -/
def Ends (P : α → Prop) (E : ε → Prop) : Except ε α → Prop
  | .ok a => P a
  | .error e => E e

namespace Ends

variable {P : α → Prop} {Q : β → Prop} {E : ε → Prop} {x : Except ε α}

theorem bind {f : α → Except ε β} (h : Ends P E x) (hf : ∀ a, P a → Ends Q E (f a)) : Ends Q E (x >>= f) := by
  cases x with
  | ok a => exact hf a h
  | error e => exact h

theorem map {f : α → β} (h : Ends P E x) (hf : ∀ a, P a → Q (f a)) : Ends Q E (x.map f) := by
  cases x with
  | ok a => exact hf a h
  | error e => exact h

theorem imp {P' : α → Prop} {E' : ε → Prop} (h : Ends P E x) (hP : ∀ a, P a → P' a) (hE : ∀ e, E e → E' e) :
    Ends P' E' x := by
  cases x with
  | ok a => exact hP a h
  | error e => exact hE e h

theorem cases (h : Ends P E x) : (∃ a, x = .ok a ∧ P a) ∨ ∃ e, x = .error e ∧ E e := by
  cases x with
  | ok a => exact Or.inl ⟨a, rfl, h⟩
  | error e => exact Or.inr ⟨e, rfl, h⟩

theorem exists_ok (h : Ends P (fun _ => False) x) : ∃ a, x = .ok a ∧ P a := by
  cases x with
  | ok a => exact ⟨a, rfl, h⟩
  | error e => exact h.elim

/-- a fold keeps what each of its steps keeps -/
theorem foldlM {f : β → α → Except ε β} {xs : List α} (h : ∀ b, Q b → ∀ x ∈ xs, Ends Q E (f b x)) {b : β} (hb : Q b) :
    Ends Q E (xs.foldlM f b) := by
  induction xs generalizing b with
  | nil => exact hb
  | cons x rest ih =>
    rw [List.foldlM_cons]
    exact (h b hb x List.mem_cons_self).bind fun c hc => ih (fun d hd y hy => h d hd y (List.mem_cons_of_mem _ hy)) hc

/-- a map relates each element to its result -/
theorem mapM {f : α → Except ε β} {R : α → β → Prop} {xs : List α} (h : ∀ x ∈ xs, Ends (R x) E (f x)) :
    Ends (List.Forall₂ R xs) E (xs.mapM f) := by
  induction xs with
  | nil => exact .nil
  | cons x rest ih =>
    rw [List.mapM_cons]
    refine (h x List.mem_cons_self).bind fun y hy => ?_
    exact (ih fun z hz => h z (List.mem_cons_of_mem _ hz)).bind fun ys hys => .cons hy hys

theorem optionMapM {f : α → Except ε β} (h : ∀ a, Ends Q E (f a)) (x : Option α) :
    Ends (fun _ => True) E (x.mapM f) := by
  cases x with
  | none => exact trivial
  | some a => exact (h a).bind fun _ _ => trivial

end Ends

end Halfspace
