import SumLayout.Proofs.Mapping

/-!
# When the check passes

The check runs each case on arguments that are their own names. Since each case reads back what it
has written, whatever the arguments are, the only thing that can go wrong is that two cases have the
same tag (`leak?_eq_none_iff`, `mismatch?_eq`). **Under different tags the check passes**
(`verify_of_nodup`).
-/

namespace SumLayout

theorem CaseRead.isInactive_inactive {α : Type} (r : CaseRead) :
    (r.inactive : Content α).isInactive = true := by
  cases r <;> rfl

namespace Layout

variable {l : Layout} {u : Union} {tags : List UInt32} {ms : List CaseMapping}

/-- **Storage leaks to another case only if it has that case's tag.** -/
theorem leak?_eq_none_iff {s : Storage String} {own other : Entry} :
    leak? s own other = none ↔
      other.position = own.position ∨ other.mapping.read.tag ≠ s.tag := by
  rw [leak?]
  by_cases hpos : other.position = own.position
  · rw [if_pos hpos]
    exact iff_of_true rfl (Or.inl hpos)
  · rw [if_neg hpos]
    by_cases htag : other.mapping.read.tag = s.tag
    · simp only [htag, true_or, if_true]
      exact iff_of_false (by simp) fun h => h.elim hpos fun hne => hne rfl
    · have hread := (Storage.read_of_tag_ne htag).1
      simp only [htag, hread, CaseRead.isInactive_inactive, Bool.true_eq_false, or_self, if_false]
      exact iff_of_true trivial (Or.inr htag)

theorem mem_entries {e : Entry} :
    e ∈ entries u ms ↔
      u.cases[e.position]? = some e.subject ∧ ms[e.position]? = some e.mapping := by
  rw [entries, List.mem_map]
  constructor
  · rintro ⟨⟨⟨c, m⟩, i⟩, hp, rfl⟩
    exact List.getElem?_zip_eq_some.mp (List.mem_zipIdx_iff_getElem?.mp hp)
  · intro h
    exact ⟨((e.subject, e.mapping), e.position),
      List.mem_zipIdx_iff_getElem?.mpr (List.getElem?_zip_eq_some.mpr h), rfl⟩

/-- A case is read back as it was written, so that only other cases can make it fail. -/
theorem MapsAll.mismatch?_eq (h : l.MapsAll 0 u.cases tags ms) {own : Entry}
    (ho : own ∈ entries u ms) (all : List Entry) :
    l.mismatch? all own
      = all.findSome? (leak? (Storage.construct l Text.dotted own.mapping.construction) own) := by
  obtain ⟨hc, hm⟩ := mem_entries.mp ho
  obtain ⟨tag, -, hmap⟩ := h.maps_at hc hm
  rw [Nat.zero_add] at hmap
  exact if_pos (hmap.inverse Text.dotted)

/-- **Under different tags the check passes.** -/
theorem MapsAll.verify_of_nodup (h : l.MapsAll 0 u.cases tags ms) (htags : tags.Nodup) :
    verify u l ms = .ok () := by
  have hnone : (entries u ms).findSome? (l.mismatch? (entries u ms)) = none := by
    rw [List.findSome?_eq_none_iff]
    intro own ho
    rw [h.mismatch?_eq ho, List.findSome?_eq_none_iff]
    intro other hother
    rw [leak?_eq_none_iff, Storage.tag_construct]
    obtain ⟨hc, hm⟩ := mem_entries.mp ho
    obtain ⟨hc', hm'⟩ := mem_entries.mp hother
    obtain ⟨tag, ht, hmap⟩ := h.maps_at hc hm
    obtain ⟨tag', ht', hmap'⟩ := h.maps_at hc' hm'
    -- one tag at two positions would be a repetition
    rw [hmap.constructionTag, hmap'.readTag, or_iff_not_imp_left]
    rintro hpos rfl
    exact hpos ((List.getElem?_inj (List.getElem?_eq_some_iff.mp ht').1 htags).mp
      (ht'.trans ht.symm))
  rw [verify]
  simp only [hnone]

end Layout

end SumLayout
