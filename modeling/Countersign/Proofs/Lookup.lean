/-!
# Looking up entries by name

The keys of others and the current listeners are kept as lists of names with values, in which an
entry is replaced by taking away the old one and putting the new one in front.
-/
namespace Countersign

variable {α : Type}

/-- Without the entries of a name the others are found as before. -/
theorem lookup_without (entries : List (String × α)) (name other : String) :
    (entries.filter fun entry => entry.1 != name).lookup other =
      if other = name then none else entries.lookup other := by
  induction entries with
  | nil => simp
  | cons entry entries ih =>
    obtain ⟨key, a⟩ := entry
    by_cases hkey : key = name
    · subst hkey
      by_cases hother : other = key
      · simpa [hother] using ih
      · have hb : (other == key) = false := by simpa using hother
        simpa [hother, List.lookup_cons, hb] using ih
    · by_cases hother : other = key
      · subst hother
        simp [hkey]
      · have hb : (other == key) = false := by simpa using hother
        simpa [hkey, List.lookup_cons, hb] using ih

/-- A replaced entry is found under its name, and the others as before. -/
theorem lookup_replace (entries : List (String × α)) (name other : String) (a : α) :
    ((name, a) :: entries.filter fun entry => entry.1 != name).lookup other =
      if other = name then some a else entries.lookup other := by
  by_cases h : other = name
  · subst h
    simp
  · have hb : (other == name) = false := by simpa using h
    rw [List.lookup_cons, hb, lookup_without, if_neg h, if_neg h]

/-- Among entries of different names each is found under its own. -/
theorem lookup_of_mem {entries : List (String × α)} (hnames : (entries.map Prod.fst).Nodup)
    {entry : String × α} (h : entry ∈ entries) : entries.lookup entry.1 = some entry.2 := by
  induction entries with
  | nil => cases h
  | cons first entries ih =>
    obtain ⟨key, a⟩ := first
    obtain ⟨hnew, hnames⟩ := List.nodup_cons.mp hnames
    rcases List.mem_cons.mp h with rfl | h
    · exact List.lookup_cons_self
    · have hne : (entry.1 == key) = false :=
        beq_eq_false_iff_ne.mpr fun heq => hnew (List.mem_map.mpr ⟨entry, h, heq⟩)
      rw [List.lookup_cons, hne]
      exact ih hnames h

/-- In which order entries of different names stand makes no difference. -/
theorem lookup_perm {entries others : List (String × α)} (h : entries.Perm others)
    (hnames : (entries.map Prod.fst).Nodup) (name : String) :
    entries.lookup name = others.lookup name := by
  induction h with
  | nil => rfl
  | cons entry _ ih =>
    obtain ⟨key, a⟩ := entry
    rw [List.lookup_cons, List.lookup_cons, ih (List.nodup_cons.mp hnames).2]
  | swap first second entries =>
    obtain ⟨key, a⟩ := first
    obtain ⟨key', a'⟩ := second
    have hne : key' ≠ key := fun heq => (List.nodup_cons.mp hnames).1 (by simp [heq])
    simp only [List.lookup_cons]
    by_cases hkey : name = key
    · have hother : (name == key') = false := beq_eq_false_iff_ne.mpr (hkey ▸ hne.symm)
      rw [hother]
    · have hother : (name == key) = false := beq_eq_false_iff_ne.mpr hkey
      rw [hother]
  | trans hfirst _ ih ih' =>
    exact (ih hnames).trans (ih' ((hfirst.map Prod.fst).nodup_iff.mp hnames))

end Countersign
