import Moose.Fat32.Insert

/-!
# Looking up a path

What a path names is said segment by segment: each but the last names a sub-directory. The code
follows every entry of the right name, and if there is none it goes on in the same directory, so it
only agrees where the rest of the path is missing there as well (`LookupOk`). Where the path does
not leave the directories, the condition asks nothing, and the lookup is right. Where it does, the
code goes on with a directory the path does not name, and the result is an error only if nothing
there happens to have the names that are left (`Misses`).
-/

set_option autoImplicit false

namespace Moose.Fat32.Fat

open List Option Lib

section

variable [Chrono] [Ucs2]

/-- The entry of a directory with that name, and its cluster. -/
def lookup (v : Fat) (dir : Nat) (segment : List Char) : Option (Option (FatFileEntry × Nat)) := do
  let clusters ← v.getClustersForFile dir
  v.findEntry segment clusters

/-- The same in the middle of a path. Where a directory has the name twice, nothing says which of
the entries is meant, and it is the one that the code takes: the first in the last cluster with one.
-/
def childNamed (v : Fat) (dir : Nat) (segment : List Char) : Option (Option FatFileEntry) := do
  let clusters ← v.getClustersForFile dir
  let listings ← clusters.mapM v.getFileListingFromCluster
  some (listings.filterMap fun listing => listing.find? fun e => e.name = segment).getLast?

/-- What the path names, from a directory on. -/
def Resolves (v : Fat) : Nat → List (List Char) → FatFileEntry × Nat → Prop
  | _, [], _ => False
  | dir, [segment], found => v.lookup dir segment = some (some found)
  | dir, segment :: next :: rest, found =>
    ∃ e, v.childNamed dir segment = some (some e) ∧ isDirectory e.attr = true ∧
      v.Resolves e.sfn.firstCluster (next :: rest) found

/-- A segment is missing, or a file stands in the middle of the path. -/
def Broken (v : Fat) : Nat → List (List Char) → Prop
  | _, [] => False
  | dir, [segment] => v.lookup dir segment = some none
  | dir, segment :: next :: rest =>
    v.childNamed dir segment = some none ∨
      ∃ e, v.childNamed dir segment = some (some e) ∧
        (isDirectory e.attr = true → v.Broken e.sfn.firstCluster (next :: rest))

/-- The path leads nowhere even if missing segments are skipped and files are entered. -/
def Misses (v : Fat) : Nat → List (List Char) → Prop
  | _, [] => True
  | dir, [segment] => v.lookup dir segment = some none
  | dir, segment :: next :: rest =>
    ∃ o, v.childNamed dir segment = some o ∧
      v.Misses (o.elim dir (·.sfn.firstCluster)) (next :: rest)

/-- Once the path has left the directories, the rest of it leads nowhere. -/
def LookupOk (v : Fat) : Nat → List (List Char) → Prop
  | _, [] | _, [_] => True
  | dir, segment :: next :: rest =>
    match v.childNamed dir segment with
    | none => True
    | some none => v.Misses dir (next :: rest)
    | some (some e) =>
      if isDirectory e.attr then v.LookupOk e.sfn.firstCluster (next :: rest)
      else v.Misses e.sfn.firstCluster (next :: rest)

variable {v : Fat} {dir : Nat} {segment next : List Char} {rest segments : List (List Char)}

/-! ## One segment -/

theorem enter_eq (v : Fat) (segment : List Char) (clusters : List Nat) (reached : Nat) :
    v.enter segment clusters reached =
      (clusters.mapM v.getFileListingFromCluster).map fun listings =>
        ((listings.filterMap fun listing => listing.find? fun e => e.name = segment).getLast?).elim
          reached (·.sfn.firstCluster) := by
  induction clusters generalizing reached with
  | nil => rfl
  | cons c clusters ih =>
    rw [enter, List.mapM_cons]
    cases v.getFileListingFromCluster c with
    | none => rfl
    | some listing =>
      simp only [Option.bind_eq_bind, Option.bind_some]
      cases hfind : listing.find? fun e => e.name = segment with
      | none =>
        simp only [ih]
        cases clusters.mapM v.getFileListingFromCluster with
        | none => rfl
        | some listings => simp [hfind]
      | some e =>
        simp only [ih]
        cases clusters.mapM v.getFileListingFromCluster with
        | none => rfl
        | some listings =>
          simp only [Option.bind_some, Option.pure_def, Option.map_some, List.filterMap_cons, hfind,
            List.getLast?_cons]
          cases (listings.filterMap fun listing =>
            listing.find? fun e => e.name = segment).getLast? <;> rfl

theorem getBySegments_last (h : segment ≠ []) :
    v.getBySegments dir [segment] =
      (v.lookup dir segment).map (·.elim (.error .notFound) .ok) := by
  rw [getBySegments, if_neg h, lookup]
  cases v.getClustersForFile dir with
  | none => rfl
  | some clusters =>
    simp only [some_bind, if_pos]
    cases v.findEntry segment clusters with
    | none => rfl
    | some o => cases o <;> rfl

theorem getBySegments_middle (h : segment ≠ []) :
    v.getBySegments dir (segment :: next :: rest) =
      (v.childNamed dir segment).bind fun o =>
        v.getBySegments (o.elim dir (·.sfn.firstCluster)) (next :: rest) := by
  rw [getBySegments, if_neg h, childNamed]
  cases v.getClustersForFile dir with
  | none => rfl
  | some clusters =>
    simp only [some_bind, reduceCtorEq, if_false, enter_eq]
    cases clusters.mapM v.getFileListingFromCluster <;> rfl

/-! ## The whole path -/

theorem misses_iff (h : ∀ s ∈ segments, s ≠ []) :
    v.Misses dir segments ↔ ∃ err, v.getBySegments dir segments = some (.error err) := by
  induction segments generalizing dir with
  | nil => exact iff_of_true trivial ⟨_, rfl⟩
  | cons segment rest ih =>
    have hne := h segment mem_cons_self
    cases rest with
    | nil =>
      rw [getBySegments_last hne, Misses]
      cases v.lookup dir segment with
      | none => simp
      | some o => cases o <;> simp
    | cons next rest =>
      rw [getBySegments_middle hne, Misses]
      simp only [ih fun s hs => h s (mem_cons_of_mem _ hs), bind_eq_some_iff]
      exact ⟨fun ⟨o, ho, err, herr⟩ => ⟨err, o, ho, herr⟩,
        fun ⟨err, o, ho, herr⟩ => ⟨o, ho, err, herr⟩⟩

/-- The lookup finds what the path names, and reports a path that is broken. -/
def LooksUp (v : Fat) (dir : Nat) (segments : List (List Char))
    (result : Option (Except FileSystemError (FatFileEntry × Nat))) : Prop :=
  (∀ found, result = some (.ok found) ↔ v.Resolves dir segments found) ∧
    (v.Broken dir segments → ∃ err, result = some (.error err))

theorem looksUp_of_broken {result : Option (Except FileSystemError (FatFileEntry × Nat))}
    (hbroken : v.Broken dir segments) (hnone : ∀ found, ¬v.Resolves dir segments found) :
    v.LooksUp dir segments result ↔ ∃ err, result = some (.error err) := by
  refine ⟨fun h => h.2 hbroken, ?_⟩
  rintro ⟨err, rfl⟩
  exact ⟨fun found => iff_of_false (by simp) (hnone found), fun _ => ⟨err, rfl⟩⟩

theorem looksUp_iff (h : ∀ s ∈ segments, s ≠ []) (hsome : segments ≠ []) :
    v.LooksUp dir segments (v.getBySegments dir segments) ↔ v.LookupOk dir segments := by
  induction segments generalizing dir with
  | nil => exact absurd rfl hsome
  | cons segment rest ih =>
    have hne := h segment mem_cons_self
    have hrest : ∀ s ∈ rest, s ≠ [] := fun s hs => h s (mem_cons_of_mem _ hs)
    cases rest with
    | nil =>
      refine iff_of_true ?_ trivial
      rw [getBySegments_last hne]
      unfold LooksUp Resolves Broken
      cases v.lookup dir segment with
      | none => simp
      | some o => cases o <;> simp
    | cons next rest =>
      have hmiss : ∀ o, v.childNamed dir segment = some o →
          ((∃ err, v.getBySegments dir (segment :: next :: rest) = some (.error err)) ↔
            v.Misses (o.elim dir (·.sfn.firstCluster)) (next :: rest)) := by
        intro o ho
        rw [getBySegments_middle hne, ho, bind_some, misses_iff hrest]
      rw [LookupOk]
      cases hnamed : v.childNamed dir segment with
      | none =>
        refine iff_of_true ?_ trivial
        rw [getBySegments_middle hne, hnamed]
        simp [LooksUp, Resolves, Broken, hnamed]
      | some o =>
        cases o with
        | none =>
          -- the segment is skipped
          have hbroken : v.Broken dir (segment :: next :: rest) := Or.inl hnamed
          rw [looksUp_of_broken hbroken (by simp [Resolves, hnamed]), hmiss _ hnamed]
          rfl
        | some e =>
          dsimp only
          split
          next hdir =>
            rw [getBySegments_middle hne, hnamed, bind_some, elim_some,
              ← ih hrest (cons_ne_nil _ _)]
            simp [LooksUp, Resolves, Broken, hnamed, hdir]
          · -- a file is entered
            rename_i hfile
            have hbroken : v.Broken dir (segment :: next :: rest) :=
              Or.inr ⟨e, hnamed, fun hdir => absurd hdir hfile⟩
            rw [looksUp_of_broken hbroken (by simp [Resolves, hnamed, hfile]), hmiss _ hnamed]
            rfl

/-- **Path lookup**, for a path of non-empty segments. -/
theorem getByPath_looksUp_iff (v : Fat) (path : List Char)
    (h : ∀ s ∈ path.splitOn '/', s ≠ []) :
    v.LooksUp v.bpb.rootDirectoryFirstCluster (path.splitOn '/') (v.getByPath path) ↔
      v.LookupOk v.bpb.rootDirectoryFirstCluster (path.splitOn '/') := by
  have hne : path ≠ [] := by
    rintro rfl
    exact h [] (by decide) rfl
  rw [getByPath, if_neg hne]
  exact looksUp_iff h (splitOn_ne_nil _ _)

end

/-- The file `A` in the directory `D`. -/
def nested : Fat :=
  ((Fat.ofTable [fatLastCluster, fatLastCluster, fatEndOfFileMark, fatEndOfFileMark]).setSlots 2
      ({ FatDirectory.shortSlot ['D'] with attr := 0x10, firstClusterLow := 3 } ::
        replicate 15 .default)).setSlots 3
    (FatDirectory.shortSlot ['A'] :: replicate 15 .default)

theorem getByPath_looksUp_iff_nested :
    ∃ found, nested.getByPath "D/A".toList = some (.ok found) ∧
      nested.Resolves 2 ["D".toList, "A".toList] found := by
  obtain ⟨_, hnamed, e, rfl, he⟩ : ∃ o, nested.childNamed 2 "D".toList = some o ∧
      ∃ e, o = some e ∧ isDirectory e.attr = true := by decide +kernel
  have hroot : nested.bpb.rootDirectoryFirstCluster = 2 := rfl
  have hsplit : "D/A".toList.splitOn '/' = ["D".toList, "A".toList] := by decide
  obtain ⟨r, hr, hsome⟩ : ∃ r, nested.getByPath "D/A".toList = some r ∧
    r.toOption.isSome = true := by
    decide +kernel
  cases r with
  | error err => cases hsome
  | ok found =>
    have hlaw := getByPath_looksUp_iff nested "D/A".toList (by decide)
    rw [hroot, hsplit, LookupOk, hnamed] at hlaw
    dsimp only at hlaw
    rw [if_pos he, LookupOk] at hlaw
    obtain ⟨hfinds, -⟩ := hlaw.mpr trivial
    exact ⟨found, hr, (hfinds found).mp hr⟩

def oneFile : Fat :=
  FatDirectory.emptyVolume.setSlots 2 (FatDirectory.shortSlot ['A'] :: replicate 15 .default)

/-- A directory that is not there is skipped. -/
theorem getByPath_skips_missing :
    ∃ found, oneFile.getByPath "X/A".toList = some (.ok found) ∧
      oneFile.Broken 2 ["X".toList, "A".toList] := by
  obtain ⟨_, hnamed, rfl⟩ : ∃ o, oneFile.childNamed 2 "X".toList = some o ∧ o = none := by
    decide +kernel
  obtain ⟨r, hr, hsome⟩ : ∃ r, oneFile.getByPath "X/A".toList = some r ∧
      r.toOption.isSome = true := by decide +kernel
  cases r with
  | error err => cases hsome
  | ok found => exact ⟨found, hr, Or.inl hnamed⟩

end Moose.Fat32.Fat
