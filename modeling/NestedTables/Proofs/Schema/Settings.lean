import NestedTables.Proofs.Record.Reading
import NestedTables.Schema.Settings

/-!
# Valid settings

Settings are valid when they could have been read from a document. All that reading refuses is
an empty prefix, a prefix that begins with a dollar sign, and an identity column without a
name (`Settings.isValid_of_ofValue`).
-/

namespace NestedTables

/-- Settings that can be made: no prefix that is empty or begins with a dollar sign, and a
name for the identity column. -/
structure Settings.IsValid (settings : Settings) : Prop where
  overridePrefix_ne : settings.overridePrefix ≠ ""
  overridePrefix_head : settings.overridePrefix.toList.head? ≠ some '$'
  idColumn_ne : settings.idColumn ≠ ""

namespace Settings

theorem isValid_default : ({} : Settings).IsValid := by
  constructor <;> decide

/-! ### Keys -/

/-- The overrides of a family have different keys. -/
theorem key_injective (settings : Settings) : Function.Injective settings.key := by
  intro o o' h
  have hsuffix : o.suffix = o'.suffix := by
    apply String.toList_injective
    have hlist := congrArg String.toList h
    simpa [key, keyWith] using hlist
  cases o <;> cases o' <;> first | rfl | (revert hsuffix; decide)

theorem key_mem_allKeys (settings : Settings) (o : Override) : settings.key o ∈ settings.allKeys :=
  List.mem_map.mpr ⟨o, by cases o <;> decide, rfl⟩

/-! ### Settings from a document -/

theorem readPrefix_eq_ok {v : Value} {s : String} (h : readPrefix v = .ok s) :
    s ≠ "" ∧ s.toList.head? ≠ some '$' := by
  unfold readPrefix at h
  split at h
  · simp at h
  · next t ht =>
    split at h
    · simp [Reading.flawed] at h
    · next hhead =>
      obtain rfl := Except.ok.inj h
      exact ⟨Reading.ne_empty_of_text ht, hhead⟩

/-- **Settings that are read from a document are valid.** -/
theorem isValid_of_ofValue {v : Value} {settings : Settings} (h : ofValue v = .ok settings) :
    settings.IsValid := by
  unfold ofValue Reading.record at h
  split at h
  · next es =>
    obtain ⟨⟨pre, column, foreignKey⟩, hread, rfl⟩ := Reading.map_eq_ok_iff.mp h
    obtain ⟨hpre, hrest⟩ := Reading.both_eq_ok_iff.mp (Reading.checked_eq_ok_iff.mp hread).1
    obtain ⟨hcolumn, -⟩ := Reading.both_eq_ok_iff.mp hrest
    have hbegin : pre ≠ "" ∧ pre.toList.head? ≠ some '$' := by
      rcases Reading.optional_eq_ok_iff.mp hpre with ⟨-, rfl⟩ | ⟨e, -, he⟩
      · exact ⟨isValid_default.overridePrefix_ne, isValid_default.overridePrefix_head⟩
      · exact readPrefix_eq_ok he
    refine ⟨hbegin.1, hbegin.2, ?_⟩
    rcases Reading.optional_eq_ok_iff.mp hcolumn with ⟨-, rfl⟩ | ⟨e, -, he⟩
    · exact isValid_default.idColumn_ne
    · exact Reading.ne_empty_of_text he
  · simp [Reading.flawed] at h

/-- The schema of a foreign key is the usual one unless the document names another. -/
theorem foreignKey_of_ofValue {es : Fields} {settings : Settings}
    (h : ofValue (.map es) = .ok settings) (habsent : es.value? "foreign_key_schema" = none) :
    settings.foreignKey = ({} : Settings).foreignKey := by
  unfold ofValue Reading.record at h
  obtain ⟨⟨pre, column, foreignKey⟩, hread, rfl⟩ := Reading.map_eq_ok_iff.mp h
  obtain ⟨-, hrest⟩ := Reading.both_eq_ok_iff.mp (Reading.checked_eq_ok_iff.mp hread).1
  obtain ⟨-, hforeign⟩ := Reading.both_eq_ok_iff.mp hrest
  rcases Reading.optional_eq_ok_iff.mp hforeign with ⟨-, rfl⟩ | ⟨e, hfound, -⟩
  · rfl
  · rw [Reading.find?_singleton_iff, habsent] at hfound
    cases hfound.2

end Settings

end NestedTables
