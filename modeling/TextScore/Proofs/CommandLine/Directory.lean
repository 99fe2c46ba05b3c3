import TextScore.CommandLine.Directory
import TextScore.Proofs.Noted
import TextScore.Proofs.Text.Words

/-!
# Reading back what was written

A file that is written is found under the path under which it was written: the folders on the way
are still there, since only the file itself is new or changed.

A path is followed step by step, and steps may lead up again or through a folder and out of it, so
that one file has many paths.  Files are kept under the locations that paths lead to.  Writing puts
one more entry in the map of locations, or replaces one; it never replaces a folder.  So every path
that leads to a folder leads there afterwards, and the last step of a path leads to the file.

## What is here

* `Directory.follow_append` — a path in two parts.
* `Directory.follow_of_folders` — a path through folders that are in another directory as well.
* `Directory.Reaches` — what the path of a file that can be written consists of.
* `Directory.resolve_write` — reading behind writing.
-/

set_option autoImplicit false

namespace TextScore

open Text

namespace Path

/-- A step is no slash, and has none in it. -/
theorem ne_slash_of_mem_start {path step : String} (h : step ∈ (start path).2) : step ≠ "/" := by
  rintro rfl
  have hmem : "/" ∈ steps path := by
    rw [start] at h
    split at h <;> exact h
  obtain ⟨s, hs, heq⟩ := List.mem_map.mp hmem
  have hslash : s = "/".toList := by rw [← heq, String.toList_ofList]
  refine not_mem_of_mem_splitOnChar hs ?_
  rw [hslash]
  decide

end Path

namespace Directory

variable {d d' : Directory} {l m : Location} {path : String}

/-- What is at a location is fixed, or the map of nodes says it. -/
theorem node?_eq_or (l : Location) :
    (∀ d : Directory, d.node? l = some .folder) ∨
      ∀ d : Directory, d.node? l = d.nodes.get? l.key := by
  unfold node?
  split
  case h_4 => exact .inr fun _ ↦ rfl
  all_goals exact .inl fun _ ↦ rfl

theorem node?_append_singleton {name : String} (hup : name ≠ "..") (hroot : name ≠ "/")
    (d : Directory) (l : Location) :
    d.node? (l ++ [name]) = d.nodes.get? (Location.key (l ++ [name])) := by
  rw [node?, List.getLast?_concat]
  split
  case h_1 h => cases h
  case h_2 h => exact absurd (Option.some.inj h) hup
  case h_3 h => exact absurd (Option.some.inj h) hroot
  case h_4 => rfl

/-- A new file leaves all folders in place. -/
theorem node?_put_of_folder {name : String} (bytes : List UInt8) (hup : name ≠ "..")
    (hroot : name ≠ "/") (hfree : d.node? (l ++ [name]) ≠ some .folder)
    (h : d.node? m = some .folder) :
    node? { nodes := d.nodes.put (Location.key (l ++ [name])) (.file bytes) } m =
      some .folder := by
  rcases node?_eq_or m with hm | hm
  · exact hm _
  · rw [hm] at h ⊢
    have hne : m.key ≠ Location.key (l ++ [name]) := fun heq ↦
      hfree (by rw [node?_append_singleton hup hroot, ← heq, h])
    rw [OrderedMap.get?_put_of_ne hne, h]

/-! ## Following

Only folders can be gone through. -/

/-- The first part of a path leads to a folder, where the second part goes on. -/
theorem follow_append {above steps : List String} (h : d.follow l above = .ok (m, .folder)) :
    d.follow l (above ++ steps) = d.follow m steps := by
  induction above generalizing l with
  | nil =>
    rw [follow] at h
    split at h
    case h_1 => cases h; rfl
    case h_2 => cases h
  | cons step above ih =>
    rw [follow] at h
    split at h
    case h_1 => cases h
    case h_2 => cases h
    case h_3 hnode =>
      split at h
      case isTrue => cases h
      case isFalse hshort =>
        rw [List.cons_append, follow, hnode]
        dsimp only
        rw [if_neg hshort, ih h]

theorem node?_of_follow {steps : List String} {n : Node} (h : d.follow l steps = .ok (m, n)) :
    d.node? m = some n := by
  induction steps generalizing l with
  | nil =>
    rw [follow] at h
    split at h
    case h_1 hnode => cases h; exact hnode
    case h_2 => cases h
  | cons step steps ih =>
    rw [follow] at h
    split at h
    case h_1 => cases h
    case h_2 => cases h
    case h_3 =>
      split at h
      case isTrue => cases h
      case isFalse => exact ih h

/-- A path to a folder only goes through folders. -/
theorem follow_of_folders (hfolders : ∀ m, d.node? m = some .folder → d'.node? m = some .folder)
    {steps : List String} (h : d.follow l steps = .ok (m, .folder)) :
    d'.follow l steps = .ok (m, .folder) := by
  induction steps generalizing l with
  | nil =>
    rw [follow] at h ⊢
    split at h
    case h_1 hnode =>
      cases h
      rw [hfolders _ hnode]
    case h_2 => cases h
  | cons step steps ih =>
    rw [follow] at h ⊢
    split at h
    case h_1 => cases h
    case h_2 => cases h
    case h_3 hnode =>
      rw [hfolders l hnode]
      split at h
      case isTrue => cases h
      case isFalse hshort =>
        dsimp only
        rw [if_neg hshort, ih h]

/-! ## Writing

The path of a file that can be written has a last step, which is the name of the file. -/

/-- The path of a file that can be written leads to a folder, and on to a name in it that no other
folder has. -/
structure Reaches (d : Directory) (path : String) (above : List String) (folder : Location)
    (name : String) : Prop where
  /-- The path can be followed. -/
  usable : Path.check path = .ok ()
  /-- The name is the last step. -/
  steps : (Path.start path).2 = above ++ [name]
  /-- The steps above it lead to the folder. -/
  leads : d.follow (Path.start path).1 above = .ok (folder, .folder)
  /-- The name leads somewhere. -/
  enters : folder.enter name = folder ++ [name]
  /-- It does not lead up. -/
  down : name ≠ ".."
  /-- It is not too long. -/
  short : ¬Path.maxNameBytes < name.utf8ByteSize
  /-- There is no folder of that name. -/
  free : d.node? (folder ++ [name]) ≠ some .folder

theorem exists_reaches (h : d.target path = .ok l) :
    ∃ above folder name, d.Reaches path above folder name ∧ l = folder ++ [name] := by
  rcases hstart : Path.start path with ⟨start, steps⟩
  rw [target, hstart] at h
  obtain ⟨_, husable, h⟩ := bind_eq_ok h
  obtain ⟨⟨folder, node⟩, hleads, h⟩ := bind_eq_ok h
  -- A slash behind the name would ask for a folder, so the last step is no empty one.
  have hlast := List.head?_dropWhile_not (· == "") steps.reverse
  generalize steps.reverse.dropWhile (· == "") = named at h hleads hlast
  dsimp only at h
  split at h
  case isTrue => cases h
  case isFalse hnode =>
    split at h
    case isTrue => cases h
    case isFalse hname =>
      split at h
      case isTrue => cases h
      case isFalse hshort =>
        split at h
        case isTrue => cases h
        case isFalse hfree =>
          cases named with
          | nil => exact absurd (.inl rfl) hname
          | cons name above =>
            simp only [List.reverse_cons, List.dropLast_concat, List.getLast?_concat,
              Option.getD_some, not_or, not_not, List.head?_cons, beq_eq_false_iff_ne]
              at h hleads hname hnode hshort hfree hlast
            obtain ⟨hdot, hdown, hsteps⟩ := hname
            have henters : folder.enter name = folder ++ [name] := by
              rw [Location.enter, if_neg (not_or.mpr ⟨hlast, hdot⟩), if_neg hdown]
            cases h
            rw [henters] at hfree ⊢
            rw [hnode] at hleads
            refine ⟨above.reverse, folder, name,
              ⟨husable, ?_, ?_, henters, hdown, hshort, hfree⟩, rfl⟩
            · rw [hstart, hsteps]
            · rw [hstart, hleads]

/-- **What was written is read back.** -/
theorem resolve_write {bytes : List UInt8} (h : d.write path bytes = .ok d') :
    d'.resolve path = .ok (.file bytes) := by
  obtain ⟨l, hl, h⟩ := bind_eq_ok h
  cases h
  obtain ⟨above, folder, name, hr, rfl⟩ := exists_reaches hl
  have hmem : name ∈ (Path.start path).2 := by
    rw [hr.steps]
    exact List.mem_append_right _ List.mem_cons_self
  have hroot := Path.ne_slash_of_mem_start hmem
  have hfolders (m : Location) (hm : d.node? m = some .folder) :=
    node?_put_of_folder bytes hr.down hroot hr.free hm
  have hleads := follow_of_folders hfolders hr.leads
  have hnode := node?_of_follow hleads
  rw [resolve, hr.usable, ok_bind]
  dsimp only
  rw [hr.steps, follow_append hleads, follow, hnode]
  dsimp only
  rw [if_neg hr.short, hr.enters, follow, node?_append_singleton hr.down hroot,
    OrderedMap.get?_put_self]
  rfl

end Directory

end TextScore
