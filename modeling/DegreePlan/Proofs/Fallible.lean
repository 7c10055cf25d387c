import Mathlib.Data.List.Forall2
import DegreePlan.Fault

/-!
# Computations that may fail

What it means that a computation that may fail succeeds: each of its steps did. A loop keeps what
each of its rounds keeps.
-/

namespace DegreePlan

variable {ε α β : Type}

@[simp] theorem pure_eq_ok {a b : α} : (pure a : Except ε α) = .ok b ↔ a = b := by
  simp [pure, Except.pure]

@[simp] theorem throw_eq_ok {e : ε} {b : α} : (throw e : Except ε α) = .ok b ↔ False := by
  simp [throw, throwThe, MonadExceptOf.throw]

@[simp] theorem ok_bind (a : α) (f : α → Except ε β) : (.ok a : Except ε α) >>= f = f a := rfl

@[simp] theorem error_bind (e : ε) (f : α → Except ε β) : (.error e : Except ε α) >>= f = .error e := rfl

/-- A sequence succeeds if its first part does and the rest does with its result. -/
theorem bind_eq_ok {x : Except ε α} {f : α → Except ε β} {b : β} :
    x >>= f = .ok b ↔ ∃ a, x = .ok a ∧ f a = .ok b := by
  cases x <;> simp

@[simp] theorem map_eq_ok {x : Except ε α} {f : α → β} {b : β} :
    f <$> x = .ok b ↔ ∃ a, x = .ok a ∧ f a = b := by
  cases x <;> simp [Functor.map, Except.map]

theorem ok_of_isSome {x : Except ε α} (h : x.toOption.isSome = true) : ∃ a, x = .ok a := by
  cases x with
  | ok a => exact ⟨a, rfl⟩
  | error e => cases h

/-- What a computation gives can be tested. -/
instance decidableExistsOk {x : Except ε α} {P : α → Prop} [DecidablePred P] :
    Decidable (∃ a, x = .ok a ∧ P a) :=
  match x with
  | .ok a => decidable_of_iff (P a) (by simp)
  | .error _ => isFalse (by simp)

theorem mapM_eq_ok {f : α → Except ε β} {l : List α} {ys : List β} :
    l.mapM f = .ok ys ↔ List.Forall₂ (fun x y => f x = .ok y) l ys := by
  induction l generalizing ys with
  | nil => rw [List.mapM_nil, pure_eq_ok, List.forall₂_nil_left_iff, eq_comm]
  | cons x l ih =>
    simp only [List.mapM_cons, bind_eq_ok, pure_eq_ok, List.forall₂_cons_left_iff, ih]
    constructor
    · rintro ⟨y, hy, zs, hz, rfl⟩; exact ⟨y, zs, hy, hz, rfl⟩
    · rintro ⟨y, zs, hy, hz, rfl⟩; exact ⟨y, hy, zs, hz, rfl⟩

theorem exists_of_forall₂ {R : α → β → Prop} {l : List α} {ys : List β} (h : List.Forall₂ R l ys)
    {x : α} (hx : x ∈ l) : ∃ y ∈ ys, R x y := by
  induction h with
  | nil => cases hx
  | @cons z y l ys hy hl ih =>
    rcases List.mem_cons.1 hx with rfl | hx
    · exact ⟨y, by simp, hy⟩
    · obtain ⟨w, hw, hf⟩ := ih hx
      exact ⟨w, by simp [hw], hf⟩

theorem map_eq_of_forall₂ {γ : Type} {R : α → β → Prop} {g : α → γ} {k : β → γ} {l : List α}
    {ys : List β} (h : List.Forall₂ R l ys) (hR : ∀ x y, R x y → g x = k y) : l.map g = ys.map k := by
  rw [← List.forall₂_eq_eq_eq, List.forall₂_map_left_iff, List.forall₂_map_right_iff]
  exact h.imp hR

theorem mem_of_mapM {f : α → Except ε β} {l : List α} {ys : List β} (h : l.mapM f = .ok ys) {y : β}
    (hy : y ∈ ys) :
    ∃ x ∈ l, f x = .ok y := exists_of_forall₂ (R := fun y x => f x = .ok y) (mapM_eq_ok.1 h).flip hy

theorem ok_of_mapM {f : α → Except ε β} {l : List α} {ys : List β} (h : l.mapM f = .ok ys) {x : α}
    (hx : x ∈ l) :
    ∃ y ∈ ys, f x = .ok y := exists_of_forall₂ (mapM_eq_ok.1 h) hx

/-- A sequence on a state goes on in the state that its first part leaves, whether that part succeeds or not. -/
theorem run_bind {σ : Type} (x : ExceptT ε (StateM σ) α) (f : α → ExceptT ε (StateM σ) β) (s : σ) :
    (x >>= f).run s = match x.run s with
      | (.ok a, t) => (f a).run t
      | (.error e, t) => (.error e, t) := by
  simp only [bind, ExceptT.bind, ExceptT.run, ExceptT.mk, StateT.bind, ExceptT.bindCont]
  rcases h : x s with ⟨_ | _, t⟩ <;> rfl

/-- A loop all of whose rounds succeed gives their results in order. -/
theorem mapM_ok {f : α → Except ε β} {g : α → β} {l : List α} (h : ∀ x ∈ l, f x = .ok (g x)) :
    l.mapM f = .ok (l.map g) := by
  refine mapM_eq_ok.2 (List.forall₂_map_right_iff.2 (List.forall₂_same.2 h))

theorem mapM_congr {f g : α → Except ε β} {l : List α} (h : ∀ x ∈ l, f x = g x) : l.mapM f = l.mapM g := by
  induction l with
  | nil => rfl
  | cons x l ih =>
    obtain ⟨hx, hl⟩ := List.forall_mem_cons.1 h
    rw [List.mapM_cons, List.mapM_cons, hx, ih hl]

/-- A loop succeeds if every round does where that of another loop did, with results that are related as theirs are. -/
theorem mapM_of_mapM {γ : Type} {R : γ → β → Prop} {f : α → Except ε β} {g : α → Except ε γ}
    {l : List α} {ys : List β} (h : l.mapM f = .ok ys) (hg : ∀ x y, f x = .ok y → ∃ z, g x = .ok z ∧ R z y) :
    ∃ zs, l.mapM g = .ok zs ∧ List.Forall₂ R zs ys := by
  simp only [mapM_eq_ok] at h ⊢
  induction h with
  | nil => exact ⟨[], .nil, .nil⟩
  | @cons x y l ys hy _ ih =>
    obtain ⟨z, hz, related⟩ := hg x y hy
    obtain ⟨zs, hzs, all_related⟩ := ih
    exact ⟨z :: zs, .cons hz hzs, .cons related all_related⟩

/-- A selecting loop all of whose rounds succeed gives what they select in order. -/
theorem filterMapM_ok {f : α → Except ε (Option β)} {g : α → Option β} {l : List α}
    (h : ∀ x ∈ l, f x = .ok (g x)) : l.filterMapM f = .ok (l.filterMap g) := by
  induction l with
  | nil => rfl
  | cons x l ih =>
    obtain ⟨hx, hl⟩ := List.forall_mem_cons.1 h
    rw [List.filterMapM_cons, hx, ok_bind, ih hl, List.filterMap_cons]
    cases g x <;> rfl

theorem mem_of_filterMapM {f : α → Except ε (Option β)} {l : List α} {ys : List β}
    (h : l.filterMapM f = .ok ys) {y : β} (hy : y ∈ ys) : ∃ x ∈ l, f x = .ok (some y) := by
  induction l generalizing ys with
  | nil => cases h; cases hy
  | cons x l ih =>
    simp only [List.filterMapM_cons, bind_eq_ok] at h
    obtain ⟨r, hr, h⟩ := h
    have later : ∀ {zs}, l.filterMapM f = .ok zs → y ∈ zs → ∃ w ∈ x :: l, f w = .ok (some y) := fun hz hy =>
      let ⟨w, hw, hf⟩ := ih hz hy
      ⟨w, List.mem_cons_of_mem x hw, hf⟩
    cases r with
    | none => exact later h hy
    | some z =>
      simp only [bind_eq_ok, pure_eq_ok] at h
      obtain ⟨zs, hz, rfl⟩ := h
      rcases List.mem_cons.1 hy with rfl | hy
      · exact ⟨x, by simp, hr⟩
      · exact later hz hy

/-- What a computation may raise. -/
def Raises (P : ε → Prop) (x : Except ε α) : Prop := ∀ e, x = .error e → P e

theorem raises_ok {P : ε → Prop} (a : α) : Raises P (.ok a) := nofun

theorem raises_throw {P : ε → Prop} {e : ε} (h : P e) : Raises P (throw e : Except ε α) := by
  intro e' he
  cases he
  exact h

theorem raises_throw_bind {P : ε → Prop} {e : ε} (h : P e) (f : α → Except ε β) :
    Raises P ((throw e : Except ε α) >>= f) := raises_throw h

theorem raises_bind {P : ε → Prop} {x : Except ε α} {f : α → Except ε β} (hx : Raises P x)
    (hf : ∀ a, x = .ok a → Raises P (f a)) : Raises P (x >>= f) := by
  intro e he
  cases h : x with
  | error e' => rw [h] at he; cases he; exact hx _ h
  | ok a => rw [h] at he; exact hf a h e he

/-- A loop raises what one of its rounds raises. -/
theorem raises_mapM {P : ε → Prop} {f : α → Except ε β} {l : List α} (h : ∀ x ∈ l, Raises P (f x)) :
    Raises P (l.mapM f) := by
  induction l with
  | nil => exact raises_ok []
  | cons x l ih =>
    obtain ⟨hx, hl⟩ := List.forall_mem_cons.1 h
    rw [List.mapM_cons]
    exact raises_bind hx fun y _ => raises_bind (ih hl) fun ys _ => raises_ok (y :: ys)

theorem raises_foldlM {P : ε → Prop} {f : β → α → Except ε β} (h : ∀ b a, Raises P (f b a))
    (b : β) (l : List α) : Raises P (l.foldlM f b) := by
  induction l generalizing b with
  | nil => exact raises_ok b
  | cons a l ih => exact raises_bind (h b a) fun c _ => ih c

/-- What a computation gives satisfies `P`, and what it raises satisfies `Q`. -/
inductive Gives (P : α → Prop) (Q : ε → Prop) : Except ε α → Prop
  | ok {a : α} (h : P a) : Gives P Q (.ok a)
  | error {e : ε} (h : Q e) : Gives P Q (.error e)

namespace Gives

variable {P : α → Prop} {R : β → Prop} {Q : ε → Prop} {x : Except ε α}

theorem of_ok {a : α} (h : Gives P Q x) (hx : x = .ok a) : P a := by
  subst hx
  cases h
  assumption

theorem of_error {e : ε} (h : Gives P Q x) (hx : x = .error e) : Q e := by
  subst hx
  cases h
  assumption

theorem mono {Q' : ε → Prop} (le : ∀ e, Q e → Q' e) (h : Gives P Q x) : Gives P Q' x := by
  cases h with
  | ok h => exact .ok h
  | error h => exact .error (le _ h)

theorem bind {f : α → Except ε β} (hx : Gives P Q x) (hf : ∀ a, P a → Gives R Q (f a)) :
    Gives R Q (x >>= f) := by
  cases hx with
  | ok h => exact hf _ h
  | error h => exact .error h

theorem mapM {f : β → Except ε α} {l : List β} (h : ∀ b ∈ l, Gives P Q (f b)) :
    Gives (∀ a ∈ ·, P a) Q (l.mapM f) := by
  induction l with
  | nil => exact .ok (List.forall_mem_nil P)
  | cons b l ih =>
    obtain ⟨hb, hl⟩ := List.forall_mem_cons.1 h
    rw [List.mapM_cons]
    exact hb.bind fun a ha => (ih hl).bind fun as has => .ok (List.forall_mem_cons.2 ⟨ha, has⟩)

end Gives

/-- What holds at the start and is kept by each round holds at the end. -/
theorem foldlM_keeps {f : β → α → Except ε β} (P : β → Prop) {l : List α} {b c : β} (hb : P b)
    (hf : ∀ b a c, a ∈ l → P b → f b a = .ok c → P c) (h : l.foldlM f b = .ok c) : P c := by
  induction l generalizing b with
  | nil => simp only [List.foldlM_nil, pure_eq_ok] at h; exact h ▸ hb
  | cons a l ih =>
    simp only [List.foldlM_cons, bind_eq_ok] at h
    obtain ⟨d, hd, h⟩ := h
    exact ih (hf b a d (by simp) hb hd) (fun b a c ha => hf b a c (by simp [ha])) h

end DegreePlan
