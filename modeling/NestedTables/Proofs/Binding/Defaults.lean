import NestedTables.Binding.Column
import NestedTables.Proofs.Calendar.Iso

/-!
# Defaults that end in a `Z`

The default of a moment may end in a `Z`, which stands for universal time. Before it is read, the
`Z` is replaced by the numeric offset `+00:00`. This is right where a time stands in front of it. A
date alone may not have a `Z` behind it, but it may have any character and a time, and the plus sign
is one: so the text of a date and a `Z` is read as the midnight of the date, at no known offset
(`Property.columnDefault_zulu`).
-/

namespace NestedTables

namespace Property

variable {property : Fields} {s : String} {body : List Char} {mark : Char}

theorem Format.withNumericOffset_eq (hs : s.toList = body ++ [mark])
    (hmark : mark = 'Z' ∨ mark = 'z') :
    withNumericOffset s = String.ofList (body ++ Iso.utcSuffix) := by
  have hoffset : "+00:00" = String.ofList Iso.utcSuffix := String.ofList_toList.symm
  unfold withNumericOffset
  rw [hs, List.getLast?_concat, List.dropLast_concat, hoffset, ← String.ofList_append]
  rcases hmark with rfl | rfl <;> rfl

/-- The default of a property whose texts are moments. -/
theorem columnDefault_eq (htype : (declaredType property).isText "string" = true)
    (hformat : property.value "format" = .text "date-time")
    (hdefault : property.value "default" = .text s) :
    columnDefault property =
      match Timestamp.ofIso? (Format.withNumericOffset s) with
      | some t => .ok (.moment t)
      | none => .error (.unreadable s "date-time") := by
  have hknown : format? property = .ok (some ("date-time", .moment)) := by
    rw [format?, hformat]
    rfl
  unfold columnDefault
  rw [hdefault, htype]
  simp only [hknown, Format.read?]
  cases Timestamp.ofIso? (Format.withNumericOffset s) <;> rfl

/-- **A default that ends in a `Z`** is refused or has the offset of universal time, unless it is a
date alone, which is read as a midnight without an offset, or has a NUL in it. -/
theorem columnDefault_zulu (htype : (declaredType property).isText "string" = true)
    (hformat : property.value "format" = .text "date-time")
    (hdefault : property.value "default" = .text s) (hs : s.toList = body ++ [mark])
    (hmark : mark = 'Z' ∨ mark = 'z') :
    (∀ date : Date, date.Fills body →
      columnDefault property = .ok (.moment ⟨date, .midnight, none⟩)) ∧
    ((∀ date : Date, ¬ date.Fills body) →
      columnDefault property = .error (.unreadable s "date-time") ∨
      ∃ t o, columnDefault property = .ok (.moment t) ∧ t.offset = some o ∧
        (o = .utc ∨ '\x00' ∈ body)) := by
  rw [columnDefault_eq htype hformat hdefault, Format.withNumericOffset_eq hs hmark]
  constructor
  · intro date hfills
    rw [Timestamp.ofIso?_of_fills hfills]
  · intro hfills
    cases hread : Timestamp.ofIso? (String.ofList (body ++ Iso.utcSuffix)) with
    | none => exact Or.inl rfl
    | some t =>
      obtain ⟨o, ho, hutc⟩ := Timestamp.exists_offset_of_ofIso? hread hfills
      exact Or.inr ⟨t, o, rfl, ho, hutc⟩

/-- A property for a moment that has a default. -/
def momentProperty (default : String) : Fields :=
  [(.text "type", .list [.text "null", .text "string"]), (.text "format", .text "date-time"),
    (.text "default", .text default)]

theorem columnDefault_momentProperty {t : Timestamp}
    (h : Timestamp.ofIso? (Format.withNumericOffset s) = some t) :
    columnDefault (momentProperty s) = .ok (.moment t) := by
  have htype : (declaredType (momentProperty s)).isText "string" = true := by rfl
  rw [columnDefault_eq htype rfl rfl, h]

/-- **The offset of a date alone is lost.** -/
theorem columnDefault_zulu_date :
    let property := momentProperty "2020-01-01Z"
    (declaredType property).isText "string" = true ∧
      property.value "format" = .text "date-time" ∧
      property.value "default" = .text "2020-01-01Z" ∧
      ¬ ((∃ fault, columnDefault property = .error fault) ∨
        ∃ t, columnDefault property = .ok (.moment t) ∧ t.offset = some .utc) := by
  intro property
  have hread : Timestamp.ofIso? (Format.withNumericOffset "2020-01-01Z") =
      some ⟨⟨2020, 1, 1, by decide⟩, .midnight, none⟩ := by
    decide +kernel
  have hdefault := columnDefault_momentProperty hread
  refine ⟨by rfl, by rfl, by rfl, ?_⟩
  rintro (⟨fault, h⟩ | ⟨t, h, hutc⟩)
  · cases hdefault.symm.trans h
  · obtain rfl := ColumnDefault.moment.inj (Except.ok.inj (hdefault.symm.trans h))
    cases hutc

/-- A morning in universal time. -/
theorem columnDefault_zulu_morning :
    let property := momentProperty "2020-01-01T08:30:00Z"
    let body := "2020-01-01T08:30:00".toList
    (declaredType property).isText "string" = true ∧
      property.value "format" = .text "date-time" ∧
      property.value "default" = .text "2020-01-01T08:30:00Z" ∧
      "2020-01-01T08:30:00Z".toList = body ++ ['Z'] ∧ (∀ date : Date, ¬ date.Fills body) ∧
      ∃ t, columnDefault property = .ok (.moment t) ∧ t.offset = some .utc := by
  intro property body
  have hs : "2020-01-01T08:30:00Z".toList = body ++ ['Z'] := by decide
  have hfills : ∀ date : Date, ¬ date.Fills body := by
    intro date h
    have hrest : (Iso.date? body.length body).map (·.2) = some "T08:30:00".toList := by decide
    rw [Date.Fills] at h
    simp [h] at hrest
  refine ⟨by rfl, by rfl, by rfl, hs, hfills, ?_⟩
  have hnul : '\x00' ∉ body := by decide
  have hzulu := @columnDefault_zulu property _ body 'Z' rfl rfl rfl hs (Or.inl rfl)
  rcases hzulu.2 hfills with hfault | ⟨t, o, hdefault, ho, hutc⟩
  · have hread : (Timestamp.ofIso? (Format.withNumericOffset "2020-01-01T08:30:00Z")).isSome := by
      decide +kernel
    obtain ⟨t, ht⟩ := Option.isSome_iff_exists.mp hread
    cases hfault.symm.trans (columnDefault_momentProperty ht)
  · exact ⟨t, hdefault, by rw [ho, hutc.resolve_right hnul]⟩

end Property

end NestedTables
