import NestedTables.Proofs.Compile.Act

/-!
# How a walk ends

A walk sets out to perform a list of acts, and it ends in one of three ways (`Walk.Ends`). It
*finishes*: all acts have been performed. It is *refused*: the acts have been performed up to a
table that the binder does not take. Or two relations have *collided*: only a first part of the
acts has been performed.

`Walk.Walks` says of a walk that it can end in no other way, with a condition on what it hands
up when it finishes and one on the collisions that are possible. It is a triple in the manner
of program logics, with the acts in the place of the precondition, and the rules below follow
the structure of a program.
-/

namespace NestedTables.Walk

variable {η ε α β : Type} (setting : Setting η ε)

/-- The ways in which a walk ends that sets out from a stage to perform `acts`. If it finishes,
`post` holds of the last stage and the result; if a relation of some name collides with another
one, `clash` holds of the name and of the pointer that is reported. -/
inductive Ends (acts : List Act) (clash : Scalar → Pointer → Prop) (post : Stage η → α → Prop)
    (s : Stage η) : Except (Failure ε) α × Registry η → Prop
  | finished {s' : Stage η} {a : α} (h : s.Performs setting acts s') (hpost : post s' a) :
      Ends acts clash post s (.ok a, s'.registry)
  | refused {done rest : List Act} {at_ : Pointer} {draft : Draft Nat} {s' : Stage η}
      {reason : ε} (hacts : acts = done ++ .register at_ draft :: rest)
      (h : s.Performs setting done s') (hrefuse : s'.answer setting draft = .error reason) :
      Ends acts clash post s (.error (.binder reason), s'.registry)
  | collided {done rest : List Act} {s' : Stage η} {name : Scalar} {at_ : Pointer}
      (hacts : acts = done ++ rest) (h : s.Performs setting done s') (hclash : clash name at_) :
      Ends acts clash post s (.error (.schema (.collision name (.text at_.written))), s'.registry)

/-- A walk that sets out from a stage to perform `acts` ends in one of the three ways. -/
def Walks (acts : List Act) (clash : Scalar → Pointer → Prop) (s : Stage η) (m : Walk η ε α)
    (post : Stage η → α → Prop) : Prop :=
  Ends setting acts clash post s (m.run.run s.registry)

variable {setting} {acts acts₁ acts₂ : List Act} {clash clash' : Scalar → Pointer → Prop}
  {s : Stage η} {m : Walk η ε α} {f : α → Walk η ε β}

theorem Walks.pure {a : α} {post : Stage η → α → Prop} (h : post s a) :
    Walks setting [] clash s (Pure.pure a) post :=
  .finished (.nil s) h

/-- A walk after a walk goes on where the first one finishes, and stops where it stops. -/
theorem run_bind (m : Walk η ε α) (f : α → Walk η ε β) (r : Registry η) :
    (m >>= f).run.run r =
      match m.run.run r with
      | (.ok a, r') => (f a).run.run r'
      | (.error e, r') => (.error e, r') := by
  change (ExceptT.bindCont f (m.run.run r).1).run (m.run.run r).2 = _
  rcases m.run.run r with ⟨_ | _, _⟩ <;> rfl

/-- **A walk after a walk** sets out to perform the acts of both. -/
theorem Walks.bind {post₁ : Stage η → α → Prop} {post₂ : Stage η → β → Prop}
    (hm : Walks setting acts₁ clash s m post₁)
    (hf : ∀ {s' a}, s.Performs setting acts₁ s' → post₁ s' a →
      Walks setting acts₂ clash s' (f a) post₂) :
    Walks setting (acts₁ ++ acts₂) clash s (m >>= f) post₂ := by
  unfold Walks at hm ⊢
  rw [run_bind]
  generalize m.run.run s.registry = out at hm
  cases hm with
  | @finished s₁ a h hpost =>
    have hwalks := hf h hpost
    unfold Walks at hwalks
    simp only
    generalize (f a).run.run s₁.registry = out at hwalks
    cases hwalks with
    | finished h' hpost' => exact .finished (h.trans h') hpost'
    | refused hacts h' hrefuse =>
      exact .refused (by rw [hacts, List.append_assoc]) (h.trans h') hrefuse
    | collided hacts h' hclash =>
      exact .collided (by rw [hacts, List.append_assoc]) (h.trans h') hclash
  -- what is stopped in the first walk never reaches the second one
  | @refused done rest at_ draft _ _ hacts h hrefuse =>
    have hsplit : acts₁ ++ acts₂ = done ++ .register at_ draft :: (rest ++ acts₂) := by
      rw [hacts, List.append_assoc, List.cons_append]
    exact .refused hsplit h hrefuse
  | @collided done rest _ _ _ hacts h hclash =>
    have hsplit : acts₁ ++ acts₂ = done ++ (rest ++ acts₂) := by rw [hacts, List.append_assoc]
    exact .collided hsplit h hclash

theorem Walks.mono {post post' : Stage η → α → Prop} (hm : Walks setting acts clash s m post)
    (hclash : ∀ name at_, clash name at_ → clash' name at_)
    (hpost : ∀ s' a, s.Performs setting acts s' → post s' a → post' s' a) :
    Walks setting acts clash' s m post' := by
  unfold Walks at hm ⊢
  generalize m.run.run s.registry = out at hm
  cases hm with
  | finished h hp => exact .finished h (hpost _ _ h hp)
  | refused hacts h hrefuse => exact .refused hacts h hrefuse
  | collided hacts h hc => exact .collided hacts h (hclash _ _ hc)

theorem Walks.noteAll (events : List Event) :
    Walks setting [.note events] clash s (Walk.noteAll events)
      fun s' _ => s' = s.note events :=
  .finished (Stage.Does.note s events).performs rfl

theorem Walks.request (table column : String) :
    Walks setting [.request table column] clash s
      (modify fun r => r.request table column setting.settings.foreignKey)
      fun s' _ => s' = s.request setting.settings table column :=
  .finished (Stage.Does.request s table column).performs rfl

/-- What is accepted is either a result or a collision. -/
theorem Walks.accepted {r : Except SchemaError α} {post : Stage η → α → Prop}
    (hok : ∀ a, r = .ok a → post s a)
    (herror : ∀ e, r = .error e → ∃ name at_, e = .collision name (.text at_.written) ∧
      clash name at_) :
    Walks setting [] clash s (Walk.accepted r) post := by
  cases r with
  | ok a => exact .pure (hok a rfl)
  | error e =>
    obtain ⟨name, at_, rfl, hclash⟩ := herror e rfl
    exact .collided (List.nil_append []).symm (.nil s) hclash

end NestedTables.Walk
