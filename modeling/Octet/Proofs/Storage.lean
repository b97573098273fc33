import Mathlib.Tactic.Common
import Octet.Storage

/-! # Files that are read back

A name that leads to a file, or to a place where one can be made, leads to the file
that is then stored there. So whether a file can be stored under a name does not
depend on its content, and what is stored is read back.
-/

namespace Octet

/-- The path of a file that stands at a spot or can be made there, and whether the name ends as only
the names of folders may. -/
def Spot.place? : Spot → Option (Path × Bool)
  | .folder => none
  | .file path _ slash => some (path, slash)
  | .vacant path slash => some (path, slash)

namespace Storage

variable {storage : Storage} {path : Path} {slash : Bool}

theorem lookup_filter_of_ne {path other : Path} (hne : other ≠ path)
    (entries : List (Path × Entry)) :
    (entries.filter (·.1 != path)).lookup other = entries.lookup other := by
  induction entries with
  | nil => rfl
  | cons entry entries ih =>
      obtain ⟨found, stored⟩ := entry
      by_cases hfound : found = path
      · subst hfound
        have hother : (other == found) = false := by simpa using hne
        simp [List.lookup_cons, ih, hother]
      · simp [hfound, List.lookup_cons, ih]

theorem entry?_put_self (hpath : path ≠ []) (entry : Entry) :
    Storage.entry? (storage.put path entry) path = some entry := by
  simp [ entry?, put, hpath]

theorem entry?_put_of_ne {other : Path} (hne : other ≠ path) (entry : Entry) :
    Storage.entry? (storage.put path entry) other = storage.entry? other := by
  have hbeq : (other == path) = false := by simpa using hne
  simp [ entry?, put, List.lookup_cons, hbeq, lookup_filter_of_ne hne]

/-- There is no folder where a file can be made. -/
theorem entry?_of_follow {here : Path} {steps : List String} {spot : Spot}
    (hfollow : storage.follow here steps = .ok spot) (hplace : spot.place? = some (path, slash)) :
    storage.entry? path ≠ some .folder := by
  fun_induction follow storage here steps with
  | case1 =>
      obtain rfl := Except.ok.inj hfollow
      cases hplace
  | case2 _ _ _ _ ih => exact ih hfollow
  | case3 _ _ _ ih => exact ih hfollow
  | case5 _ _ _ _ _ _ _ ih => exact ih hfollow
  | case6 here step _ _ _ _ _ hentry _ | case8 here step _ _ _ _ hentry _ =>
      obtain rfl := Except.ok.inj hfollow
      obtain ⟨rfl, -⟩ := Prod.mk.inj (Option.some.inj hplace)
      simp [hentry]
  | case4 | case7 | case9 => cases hfollow

/-- A file that is made where some steps lead is found by the same steps. The steps pass through
folders only, none of which the file replaces. -/
theorem follow_put {here : Path} {steps : List String} {spot : Spot}
    (hfollow : storage.follow here steps = .ok spot) (hplace : spot.place? = some (path, slash))
    (content : List UInt8) :
    (storage.put path (.file content)).follow here steps = .ok (.file path content slash) := by
  have hfolder := entry?_of_follow hfollow hplace
  fun_induction follow storage here steps with
  | case1 =>
      obtain rfl := Except.ok.inj hfollow
      cases hplace
  | case2 _ _ _ hskip ih => simpa only [follow, hskip, ↓reduceIte] using ih hfollow
  | case3 _ _ hskip ih => simpa only [follow, hskip, ↓reduceIte] using ih hfollow
  | case5 here step _ hskip hup hlong hentry ih =>
      have hother : step :: here ≠ path := by
        rintro rfl
        exact hfolder hentry
      simpa only [follow, hskip, hup, hlong, ↓reduceIte, entry?_put_of_ne hother, hentry]
        using ih hfollow
  | case6 here step _ hskip hup hlong _ hentry hlast
  | case8 here step _ hskip hup hlong hentry hlast =>
      obtain rfl := Except.ok.inj hfollow
      obtain ⟨rfl, rfl⟩ := Prod.mk.inj (Option.some.inj hplace)
      simp only [follow, hskip, hup, hlong, ↓reduceIte, entry?_put_self (List.cons_ne_nil _ _),
        hlast]
  | case4 | case7 | case9 => cases hfollow

/-- A file that is stored is found under the name for which its place was found. -/
theorem locate_put {name : String} {spot : Spot} (hlocate : storage.locate name = .ok spot)
    (hplace : spot.place? = some (path, slash)) (content : List UInt8) :
    (storage.put path (.file content)).locate name = .ok (.file path content slash) := by
  unfold locate at hlocate ⊢
  split at hlocate
  next => cases hlocate
  next hnul =>
    split at hlocate
    next => cases hlocate
    next hempty =>
      split at hlocate
      next => cases hlocate
      next hlong =>
        rw [if_neg hnul, if_neg hempty, if_neg hlong]
        exact follow_put hlocate hplace content

/-- A file can be stored under a name that leads to a file or to a place for one, and not to a
folder. -/
theorem write_eq_ok_iff {name : String} {content : List UInt8} {next : Storage} :
    storage.write name content = .ok next ↔
      ∃ spot path, storage.locate name = .ok spot ∧ spot.place? = some (path, false) ∧
        storage.put path (.file content) = next := by
  unfold write
  cases hlocate : storage.locate name with
  | error astray => simp
  | ok spot =>
      cases spot with
      | folder => simp [Spot.place?]
      | file path _ slash | vacant path slash => cases slash <;> simp [Spot.place?]

/-- What was stored under a name is read back under it. -/
theorem read_of_write {name : String} {content : List UInt8} {next : Storage}
    (hwrite : storage.write name content = .ok next) : next.read name = .ok content := by
  obtain ⟨spot, path, hlocate, hplace, rfl⟩ := write_eq_ok_iff.mp hwrite
  simp [read, locate_put hlocate hplace content]

/-- Whether a file can be stored under a name does not depend on its content. -/
theorem exists_write {name : String} {content : List UInt8} {next : Storage}
    (hwrite : storage.write name content = .ok next) (other : List UInt8) :
    ∃ changed, storage.write name other = .ok changed := by
  obtain ⟨spot, path, hlocate, hplace, -⟩ := write_eq_ok_iff.mp hwrite
  exact ⟨_, write_eq_ok_iff.mpr ⟨spot, path, hlocate, hplace, rfl⟩⟩

end Storage

end Octet
