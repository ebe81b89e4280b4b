import NestedTables.Compile.Walk

/-!
# Acts and stages of a compilation

All that a walk ever does to the registry is one of three *acts* (`Act`): it adds to the log,
it registers a table, or it asks for a foreign-key column of the tables of a name. An act is
plain data. A table that is to be registered is described before any column has been asked
for and before any handle has been given out: in its relations the *place* of a table among
the registered ones stands for the handle.

A *stage* (`Stage`) is a registry together with the handles by place, and `Stage.Does` says what
an act makes of it. `Stage.Performs` is a sequence of acts. Registering is the only act that
can fail, when the binder refuses the table, and then nothing has happened.

How the acts of a run are found in the schema is not said here.
-/

namespace NestedTables

variable {η ε : Type}

/-! ### Places for handles -/

/-- The relation with the handle that its place stands for. -/
def Relation.withHandles (handles : List η) (r : Relation Nat) : Relation η :=
  { r with target := r.target.bind (handles[·]?) }

/-- The table with the handles that the places in its relations stand for. -/
def Draft.withHandles (handles : List η) (d : Draft Nat) : Draft η :=
  { d with relations := Entries.mapValues (Relation.withHandles handles) d.relations }

@[simp] theorem Draft.withHandles_modelName (handles : List η) (d : Draft Nat) :
    (d.withHandles handles).modelName = d.modelName := rfl

@[simp] theorem Draft.withHandles_tableName (handles : List η) (d : Draft Nat) :
    (d.withHandles handles).tableName = d.tableName := rfl

@[simp] theorem Draft.withHandles_idColumn (handles : List η) (d : Draft Nat) :
    (d.withHandles handles).idColumn = d.idColumn := rfl

@[simp] theorem Draft.withHandles_schema (handles : List η) (d : Draft Nat) :
    (d.withHandles handles).schema = d.schema := rfl

@[simp] theorem Draft.withHandles_columns (handles : List η) (d : Draft Nat) :
    (d.withHandles handles).columns = d.columns := rfl

/-- What a walk does to the registry. -/
inductive Act
  | note (events : List Event)
  /-- Registers the table that a node becomes. -/
  | register (at_ : Pointer) (draft : Draft Nat)
  /-- Asks for a foreign-key column of the tables of a name. -/
  | request (table column : String)

namespace Act

/-- The tables that some acts register, with their pointers, in order. -/
def registered : List Act → List (Pointer × Draft Nat)
  | [] => []
  | .register at_ draft :: acts => (at_, draft) :: registered acts
  | _ :: acts => registered acts

/-- The columns that some acts ask for of the tables of a name, in order. -/
def asked (table : String) : List Act → List String
  | [] => []
  | .request t column :: acts =>
    if t = table then column :: asked table acts else asked table acts
  | _ :: acts => asked table acts

variable (acts acts' : List Act)

@[simp] theorem registered_nil : registered [] = [] := rfl

@[simp] theorem registered_note (events : List Event) :
    registered (.note events :: acts) = registered acts := rfl

@[simp] theorem registered_register (at_ : Pointer) (draft : Draft Nat) :
    registered (.register at_ draft :: acts) = (at_, draft) :: registered acts := rfl

@[simp] theorem registered_request (table column : String) :
    registered (.request table column :: acts) = registered acts := rfl

@[simp] theorem registered_append :
    registered (acts ++ acts') = registered acts ++ registered acts' := by
  induction acts with
  | nil => rfl
  | cons act acts ih => cases act <;> simp [ih]

variable (table : String)

@[simp] theorem asked_nil : asked table [] = [] := rfl

@[simp] theorem asked_note (events : List Event) :
    asked table (.note events :: acts) = asked table acts := rfl

@[simp] theorem asked_register (at_ : Pointer) (draft : Draft Nat) :
    asked table (.register at_ draft :: acts) = asked table acts := rfl

@[simp] theorem asked_request (t column : String) : asked table (.request t column :: acts) =
    if t = table then column :: asked table acts else asked table acts := rfl

@[simp] theorem asked_append :
    asked table (acts ++ acts') = asked table acts ++ asked table acts' := by
  induction acts with
  | nil => rfl
  | cons act acts ih =>
    cases act with
    | note | register => simpa using ih
    | request t column => by_cases h : t = table <;> simp [h, ih]

end Act

/-- A registry, and the handles of its tables by place. -/
structure Stage (η : Type) where
  registry : Registry η
  handles : List η
  counted : handles.length = registry.drafts.length

namespace Stage

/-- The stage at which nothing has been registered. -/
def start (log : List Event) : Stage η where
  registry := { log := log }
  handles := []
  counted := rfl

def note (s : Stage η) (events : List Event) : Stage η where
  registry := s.registry.noteAll events
  handles := s.handles
  counted := s.counted

def request (s : Stage η) (settings : Settings) (table column : String) : Stage η where
  registry := s.registry.request table column settings.foreignKey
  handles := s.handles
  counted := by simp [Registry.request, s.counted]

/-- A table as it is handed over: with its handles, and with the columns that have been asked
for. -/
def drafted (s : Stage η) (settings : Settings) (d : Draft Nat) : Draft η :=
  (d.withHandles s.handles).withColumns (s.registry.columnsOf d.tableName) settings.foreignKey

def register (s : Stage η) (settings : Settings) (at_ : Pointer) (d : Draft Nat) (handle : η) :
    Stage η where
  registry := s.registry.register (s.drafted settings d) handle at_ d.relations.length
  handles := s.handles ++ [handle]
  counted := by simp [Registry.register, s.counted]

/-- What the binder answers when a table is handed over. -/
def answer (s : Stage η) (setting : Walk.Setting η ε) (d : Draft Nat) : Except ε η :=
  setting.binder.create s.registry.descriptors
    (s.registry.describe (s.drafted setting.settings d))

/-- An act leads from a stage to the next one. -/
inductive Does (setting : Walk.Setting η ε) : Stage η → Act → Stage η → Prop
  | note (s : Stage η) (events : List Event) : Does setting s (.note events) (s.note events)
  | register {s : Stage η} (at_ : Pointer) {d : Draft Nat} {handle : η}
      (h : s.answer setting d = .ok handle) :
      Does setting s (.register at_ d) (s.register setting.settings at_ d handle)
  | request (s : Stage η) (table column : String) :
      Does setting s (.request table column) (s.request setting.settings table column)

/-- Acts lead from a stage to a later one. -/
inductive Performs (setting : Walk.Setting η ε) : Stage η → List Act → Stage η → Prop
  | nil (s : Stage η) : Performs setting s [] s
  | cons {s s₁ s₂ : Stage η} {act : Act} {acts : List Act} (h : Does setting s act s₁)
      (hs : Performs setting s₁ acts s₂) : Performs setting s (act :: acts) s₂

variable {setting : Walk.Setting η ε} {s s' s₁ s₂ : Stage η} {acts acts' : List Act}

theorem Does.performs {act : Act} (h : Does setting s act s') : Performs setting s [act] s' :=
  .cons h (.nil _)

theorem Performs.trans (h : Performs setting s acts s₁) (h' : Performs setting s₁ acts' s₂) :
    Performs setting s (acts ++ acts') s₂ := by
  induction h with
  | nil => exact h'
  | cons hdoes _ ih => exact .cons hdoes (ih h')

/-- A sequence of acts can be stopped anywhere. -/
theorem Performs.split : ∀ {acts : List Act} {s : Stage η},
    Performs setting s (acts ++ acts') s₂ →
      ∃ s₁, Performs setting s acts s₁ ∧ Performs setting s₁ acts' s₂
  | [], s, h => ⟨s, .nil s, h⟩
  | _ :: _, _, .cons hdoes h => by
    obtain ⟨s₁, h₁, h₂⟩ := Performs.split h
    exact ⟨s₁, .cons hdoes h₁, h₂⟩

/-! ### What an act does to each part of a stage -/

@[simp] theorem handles_note (s : Stage η) (events : List Event) :
    (s.note events).handles = s.handles := rfl

@[simp] theorem handles_request (s : Stage η) (settings : Settings) (table column : String) :
    (s.request settings table column).handles = s.handles := rfl

@[simp] theorem handles_register (s : Stage η) (settings : Settings) (at_ : Pointer)
    (d : Draft Nat) (handle : η) :
    (s.register settings at_ d handle).handles = s.handles ++ [handle] := rfl

/-- Handles are only ever added. -/
theorem Performs.handles_prefix (h : Performs setting s acts s') :
    s.handles <+: s'.handles := by
  induction h with
  | nil => exact List.prefix_rfl
  | cons hdoes _ ih =>
    refine List.IsPrefix.trans ?_ ih
    cases hdoes with
    | note | request => exact List.prefix_rfl
    | register => exact List.prefix_append _ _

/-- There is a handle for every table that is registered. -/
theorem Performs.length_handles (h : Performs setting s acts s') :
    s'.handles.length = s.handles.length + (Act.registered acts).length := by
  induction h with
  | nil => simp
  | cons hdoes _ ih =>
    rw [ih]
    cases hdoes <;> simp
    omega

end Stage

end NestedTables
