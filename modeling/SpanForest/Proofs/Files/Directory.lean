import SpanForest.Files.Directory
import SpanForest.Proofs.Table

/-!
Writing one file of a working directory. The path that was written to leads to a file of just these
bytes afterwards, and nothing else in the directory is there that was not, or is gone or changed. A
new file makes no new directory, since a free place lies in one that is there already.
-/

namespace SpanForest.Directory

variable {d : Directory}

def shows (path : List String) (entry : List String × Entry) : Bool :=
  if entry.1 = path then entry.2 = .directory else path.isPrefixOf entry.1

theorem hasDirectory_eq (d : Directory) (path : List String) :
    d.hasDirectory path = (path.isEmpty || d.any (shows path)) := rfl

theorem shows_file (path place : List String) (bytes : List UInt8) :
    shows path (place, .file bytes) = (decide (place ≠ path) && path.isPrefixOf place) := by
  unfold shows
  by_cases h : place = path <;> simp [h]

theorem hasDirectory_above {path longer : List String} (h : path <+: longer)
    (hdir : d.hasDirectory longer = true) : d.hasDirectory path = true := by
  rw [hasDirectory_eq, Bool.or_eq_true, List.any_eq_true] at hdir ⊢
  rcases hdir with hempty | ⟨entry, hentry, hshows⟩
  · have hnil : path = [] := List.prefix_nil.1 (List.isEmpty_iff.1 hempty ▸ h)
    exact .inl (List.isEmpty_iff.2 hnil)
  · refine .inr ⟨entry, hentry, ?_⟩
    by_cases hsame : path = longer
    · rwa [hsame]
    · have hlonger : longer <+: entry.1 := by
        rw [shows] at hshows
        split at hshows
        · next heq => exact heq ▸ List.prefix_rfl
        · exact List.isPrefixOf_iff_prefix.1 hshows
      have hne : entry.1 ≠ path := fun heq => by
        have hback : longer <+: path := heq ▸ hlonger
        exact hsame (h.eq_of_length (Nat.le_antisymm h.length_le hback.length_le))
      rw [shows, if_neg hne]
      exact List.isPrefixOf_iff_prefix.2 (h.trans hlonger)

def Place.Fits (d : Directory) : Place → Prop
  | .directory => True
  | .file path bytes => Table.find? path d = some (.file bytes)
  | .free path => Table.find? path d = none ∧ d.hasDirectory path = false ∧
      ∃ dir name, path = dir ++ [name] ∧ d.hasDirectory dir = true

theorem find?_ne_directory {path : List String} (h : d.hasDirectory path = false) :
    Table.find? path d ≠ some .directory := by
  intro hfind
  rw [hasDirectory_eq, Bool.or_eq_false_iff, List.any_eq_false] at h
  exact h.2 _ (Table.mem_of_find? hfind) (by simp [shows])

theorem follow_fits {whole : String} {here parts : List String} {p : Place}
    (hhere : d.hasDirectory here = true) (h : follow d whole here parts = .ok p) : p.Fits d := by
  fun_induction follow d whole here parts with
  | case1 => exact Except.ok.inj h ▸ trivial
  | case2 here part rest hstay ih => exact ih hhere h
  | case3 => exact Except.ok.inj h ▸ trivial
  | case4 => cases h
  | case5 here rest hne hstay ih =>
      exact ih (hasDirectory_above ( List.dropLast_prefix here) hhere) h
  | case6 => cases h
  | case7 here part rest hstay hup hshort path bytes hfile hlast =>
      rw [← Except.ok.inj h]
      exact hfile
  | case8 => cases h
  | case9 here part rest hstay hup hshort path hdir hfile ih => exact ih hdir h
  | case10 here part rest hstay hup hshort path hdir hlast hfile =>
      rw [← Except.ok.inj h]
      have hfree : d.hasDirectory path = false := Bool.eq_false_iff.2 hdir
      refine ⟨?_, hfree, here, part, rfl, hhere⟩
      cases hfind : Table.find? path d with
      | none => rfl
      | some entry =>
          cases entry with
          | file bytes => exact absurd hfind (hfile bytes)
          | directory => exact absurd hfind (find?_ne_directory hfree)
  | case11 => cases h
  | case12 => cases h

def Place.Is (place : List String) : Place → Prop
  | .directory => False
  | .file path _ => path = place
  | .free path => path = place

theorem Place.Fits.ne_place {p : Place} (fits : p.Fits d) {place path : List String} (hp : p.Is place)
    (hdir : d.hasDirectory path = true)
    (hfile : ∀ bytes, Table.find? path d = some (.file bytes) → False) : path ≠ place := by
  rintro rfl
  cases p with
  | directory => cases hp
  | file there old =>
      obtain rfl : there = path := hp
      exact hfile old fits
  | free there =>
      obtain rfl : there = path := hp
      exact Bool.false_ne_true (fits.2.1.symm.trans hdir)

structure Differs (before after : Directory) (place : List String) (bytes : List UInt8) : Prop where
  file : Table.find? place after = some (.file bytes)
  others : ∀ other, other ≠ place → Table.find? other after = Table.find? other before
  directories : ∀ path, after.hasDirectory path = before.hasDirectory path

theorem any_put_of_find? {f : List String × Entry → Bool} {place : List String} {old new : Entry}
    (hfind : Table.find? place d = some old) (h : f (place, new) = f (place, old)) :
    (d.put place new).any f = d.any f := by
  induction d with
  | nil => cases hfind
  | cons entry rest ih =>
      rw [Table.find?] at hfind
      rw [Table.put]
      split at hfind
      · next hkey =>
          obtain rfl : entry = (place, old) := Prod.ext (eq_of_beq hkey) (Option.some.inj hfind)
          rw [if_pos hkey, List.any_cons, List.any_cons, h]
      · next hkey => rw [if_neg hkey, List.any_cons, List.any_cons, ih hfind]

theorem differs_put {place : List String} {p : Place} (hp : p.Is place) (fits : p.Fits d)
    (bytes : List UInt8) : Differs d (d.put place (.file bytes)) place bytes where
  file := Table.find?_put_self place _ d
  others other hne := by
    rw [Table.find?_put, if_neg]
    exact fun h => hne (eq_of_beq h).symm
  directories path := by
    rw [hasDirectory_eq, hasDirectory_eq]
    cases p with
    | directory => cases hp
    | file there old =>
        obtain rfl : there = place := hp
        rw [any_put_of_find? fits]
        rw [shows_file, shows_file]
    | free there =>
        obtain rfl : there = place := hp
        obtain ⟨hnone, -, dir, name, rfl, hdir⟩ := fits
        have hnew : dir ++ [name] ∉ Table.keys d := by
          rw [Table.mem_keys_iff, hnone]
          exact Bool.false_ne_true
        rw [Table.put_of_notMem hnew, List.any_append, List.any_cons, List.any_nil, Bool.or_false,
          shows_file, ← Bool.or_assoc]
        -- a directory above the new file is above the directory in which it lies, or is that one
        cases habove : decide (dir ++ [name] ≠ path) && path.isPrefixOf (dir ++ [name]) with
        | false => rw [Bool.or_false]
        | true =>
            rw [Bool.and_eq_true, decide_eq_true_eq, List.isPrefixOf_iff_prefix,
              List.prefix_concat_iff] at habove
            obtain ⟨hne, heq | hprefix⟩ := habove
            · exact absurd heq.symm hne
            · rw [Bool.or_true, ← hasDirectory_eq, hasDirectory_above hprefix hdir]

theorem follow_of_differs {after : Directory} {place : List String} {bytes : List UInt8}
    (h : Differs d after place bytes) {whole : String} {here parts : List String} {p : Place}
    (hp : p.Is place) (fits : p.Fits d) (hfollow : follow d whole here parts = .ok p) :
    follow after whole here parts = .ok (.file place bytes) := by
  fun_induction follow d whole here parts
  case case1 | case3 =>
    cases hfollow
    cases hp
  case case2 here part rest hstay ih =>
    rw [follow, if_pos hstay]
    exact ih hfollow
  case case5 here rest hne hstay ih =>
    rw [follow, if_neg hstay, if_pos rfl, if_neg hne]
    exact ih hfollow
  case case7 here part rest hstay hup hshort path old hfile hlast =>
    obtain rfl := Except.ok.inj hfollow
    obtain rfl : path = place := hp
    rw [follow, if_neg hstay, if_neg hup, if_neg hshort]
    simp only [path] at h ⊢
    rw [h.file]
    exact if_pos hlast
  case case9 here part rest hstay hup hshort path hdir hfile ih =>
    have hne : path ≠ place := fits.ne_place hp hdir hfile
    have hnext := ih hfollow
    rw [follow, if_neg hstay, if_neg hup, if_neg hshort]
    simp only [path] at hne hdir hfile hnext ⊢
    rw [h.others _ hne, h.directories, if_pos hdir]
    split
    · next bytes hfind => exact absurd hfind (hfile bytes)
    · exact hnext
  case case10 here part rest hstay hup hshort path hdir hlast hfile =>
    obtain rfl := Except.ok.inj hfollow
    obtain rfl : path = place := hp
    rw [follow, if_neg hstay, if_neg hup, if_neg hshort]
    simp only [path] at h ⊢
    rw [h.file]
    exact if_pos hlast
  case case4 | case6 | case8 | case11 | case12 => cases hfollow

theorem locate_eq_follow {path : String} {place : List String} {p : Place} (hp : p.Is place)
    (h : d.locate path = .ok p) (other : Directory) :
    other.locate path = other.follow path [] (parts path) := by
  unfold locate at h ⊢
  split at h
  · cases h
  · next hnull =>
      rw [if_neg hnull]
      split at h
      · cases h
      · next hempty =>
          rw [if_neg hempty]
          split at h
          · cases h
          · next hshort =>
              rw [if_neg hshort]
              split at h
              · split at h
                · cases h
                  cases hp
                · cases h
              · next hrelative => rw [if_neg hrelative]

theorem locate_fits {path : String} {place : List String} {p : Place} (hp : p.Is place)
    (h : d.locate path = .ok p) : p.Fits d := by
  rw [locate_eq_follow hp h d] at h
  exact follow_fits rfl h

theorem locate_of_differs {after : Directory} {place : List String} {bytes : List UInt8}
    (h : Differs d after place bytes) {path : String} {p : Place} (hp : p.Is place)
    (hlocate : d.locate path = .ok p) : after.locate path = .ok (.file place bytes) := by
  have fits := locate_fits hp hlocate
  have hfollow := locate_eq_follow hp hlocate
  rw [hfollow d] at hlocate
  rw [hfollow after]
  exact follow_of_differs h hp fits hlocate

def OnlyWritten (before after : Directory) (path : String) (bytes : List UInt8) : Prop :=
  ∃ place, after.locate path = .ok (.file place bytes) ∧
    ∀ other, other ≠ place → Table.find? other after = Table.find? other before

theorem onlyWritten_of_write {after : Directory} {path : String} {bytes : List UInt8}
    (h : d.write path bytes = .ok after) : OnlyWritten d after path bytes := by
  obtain ⟨place, p, hp, hlocate, rfl⟩ : ∃ place p, Place.Is place p ∧ d.locate path = .ok p ∧
      d.put place (.file bytes) = after := by
    unfold write at h
    split at h
    · next place old hlocate => exact ⟨place, .file place old, rfl, hlocate, Except.ok.inj h⟩
    · next place hlocate => exact ⟨place, .free place, rfl, hlocate, Except.ok.inj h⟩
    · cases h
    · cases h
  have hdiffers := differs_put hp (locate_fits hp hlocate) bytes
  exact ⟨place, locate_of_differs hdiffers hp hlocate, hdiffers.others⟩

theorem OnlyWritten.read {before after : Directory} {path : String} {bytes : List UInt8}
    (h : OnlyWritten before after path bytes) : after.read path = .ok bytes := by
  obtain ⟨place, hlocate, -⟩ := h
  rw [Directory.read, hlocate]

end SpanForest.Directory
