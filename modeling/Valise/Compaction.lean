import Valise.Library.Runs

/-!
Compactions of the stores of one directory: each builds its new file under a temporary name made
from the path's stem, renames it over the path, syncs the directory and reopens the path.
-/

namespace Valise

open Runs

abbrev FileName := List UInt8

namespace FileName

def dot : UInt8 := '.'.toUInt8

def undotted (byte : UInt8) : Bool := byte != dot

/-- Split at the last dot: what stands before it and after it. -/
def rsplitDot (file : FileName) : Option (FileName × FileName) :=
  match file.reverse.dropWhile undotted with
  | [] => none
  | _ :: before => some (before.reverse, (file.reverse.takeWhile undotted).reverse)

def fileStem (file : FileName) : FileName :=
  if file = [dot, dot] then file
  else
    match rsplitDot file with
    | none => file
    | some ([], _) => file
    | some (before, _) => before

def withExtension (file extension : FileName) : FileName :=
  fileStem file ++ dot :: extension

def compacting : FileName :=
  ['v', 'a', 'l', 'i', 's', 'e', '.', 'c', 'o', 'm', 'p', 'a', 'c', 't', 'i', 'n', 'g'].map
    Char.toUInt8

/-- Where the compaction of the store at the path builds its file. -/
def tempPath (path : FileName) : FileName :=
  withExtension path compacting

theorem rsplitDot_eq {file before after : FileName}
    (split : rsplitDot file = some (before, after)) :
    file = before ++ dot :: after ∧ dot ∉ after := by
  unfold rsplitDot at split
  cases rest : file.reverse.dropWhile undotted with
  | nil => simp [rest] at split
  | cons byte front =>
    simp only [rest, Option.some.injEq, Prod.mk.injEq] at split
    obtain ⟨rfl, rfl⟩ := split
    have last : byte = dot := by
      have failed := List.head?_dropWhile_not undotted file.reverse
      simpa [rest, undotted] using failed
    have whole := List.takeWhile_append_dropWhile (p := undotted) (l := file.reverse)
    rw [rest, last] at whole
    constructor
    · simpa using (congrArg List.reverse whole).symm
    · intro member
      have other := List.all_takeWhile (p := undotted) (l := file.reverse)
      simp only [List.all_eq_true] at other
      simpa [undotted] using other dot (List.mem_reverse.mp member)

theorem fileStem_cases (file : FileName) :
    fileStem file = file ∨ ∃ after, file = fileStem file ++ dot :: after ∧ dot ∉ after := by
  unfold fileStem
  split
  · exact .inl rfl
  · split
    · exact .inl rfl
    · exact .inl rfl
    · rename_i before after _ split
      exact .inr ⟨after, rsplitDot_eq split⟩

/-- A store is never at its own temporary name. -/
theorem tempPath_ne (path : FileName) : tempPath path ≠ path := by
  intro same
  rcases fileStem_cases path with whole | ⟨after, parts, plain⟩
  · have longer := congrArg List.length same
    simp [tempPath, withExtension, compacting, whole] at longer
  · have extension : compacting = after :=
      (List.cons.inj (List.append_cancel_left (same.trans parts))).2
    exact plain (extension ▸ by decide)

end FileName

/-- What a file holds: nothing of a store is in it until its writer has committed it. -/
inductive FileStage where
  | original
  | halfWritten
  | compacted
deriving DecidableEq, Repr

structure StoreFile (ι : Type) where
  owner : ι
  stage : FileStage
deriving DecidableEq, Repr

/-- Where the compaction of a store stands. -/
inductive CompactCall where
  | idle
  | began
  | removed
  | created (file : Nat)
  | written
  | renamed
  | synced
deriving DecidableEq, Repr

/-- The files by inode, the directory, the directories it went through since the last sync, and the
file that each store has open. -/
structure StoreFolder (ι : Type) where
  files : List (StoreFile ι)
  names : FileName → Option Nat
  unsynced : List (FileName → Option Nat) := []
  handles : ι → Option Nat := fun _ => none
  calls : ι → CompactCall := fun _ => .idle

namespace StoreFolder

open FileName (tempPath tempPath_ne)

variable {ι : Type}

/-- The file is whole and has the content of the store. -/
def Whole (files : List (StoreFile ι)) (store : ι) (file : Nat) : Prop :=
  ∃ made, files[file]? = some made ∧ made.owner = store ∧ made.stage ≠ .halfWritten

/-- Every path names its own store's file, as it was or compacted. -/
def Intact (folder : StoreFolder ι) (paths : ι → FileName) : Prop :=
  ∀ store, ∃ file, folder.names (paths store) = some file ∧ Whole folder.files store file

/-- No compaction runs, no store is open, and the directory is on disk. -/
structure Fresh (folder : StoreFolder ι) (paths : ι → FileName) : Prop where
  intact : folder.Intact paths
  unsynced : folder.unsynced = []
  handles : ∀ store, folder.handles store = none
  calls : ∀ store, folder.calls store = .idle

def rebind (folder : StoreFolder ι) (names : FileName → Option Nat) : StoreFolder ι :=
  { folder with names, unsynced := folder.names :: folder.unsynced }

def sync (folder : StoreFolder ι) : StoreFolder ι :=
  { folder with unsynced := [] }

def append (folder : StoreFolder ι) (file : StoreFile ι) : StoreFolder ι :=
  { folder with files := folder.files ++ [file] }

/-- The compacted file is written through its descriptor, whatever name it has by then. -/
def fill (folder : StoreFolder ι) (file : Nat) : StoreFolder ι :=
  { folder with files := folder.files.modify file fun made => { made with stage := .compacted } }

section Steps

variable [DecidableEq ι]

def move (folder : StoreFolder ι) (store : ι) (call : CompactCall) : StoreFolder ι :=
  { folder with calls := Function.update folder.calls store call }

def reopen (folder : StoreFolder ι) (store : ι) (file : Nat) : StoreFolder ι :=
  { folder with handles := Function.update folder.handles store (some file) }

/-- One step of a compaction, an open, or a crash that leaves every name with a file it had since
the directory was last synced. -/
inductive Step (paths : ι → FileName) : StoreFolder ι → StoreFolder ι → Prop where
  | opened {folder store file} : folder.calls store = .idle →
      folder.names (paths store) = some file → Step paths folder (folder.reopen store file)
  | began {folder store file} : folder.calls store = .idle → folder.handles store = some file →
      Step paths folder (folder.move store .began)
  | removed {folder store} : folder.calls store = .began →
      Step paths folder ((folder.rebind
        (Function.update folder.names (tempPath (paths store)) none)).move store .removed)
  | created {folder store source made} : folder.calls store = .removed →
      folder.names (tempPath (paths store)) = none →
      folder.handles store = some source → folder.files[source]? = some made →
      Step paths folder (((folder.rebind (Function.update folder.names (tempPath (paths store))
        (some folder.files.length))).append ⟨made.owner, .halfWritten⟩).move store
          (.created folder.files.length))
  | written {folder store file} : folder.calls store = .created file →
      Step paths folder ((folder.fill file).move store .written)
  | renamed {folder store file} : folder.calls store = .written →
      folder.names (tempPath (paths store)) = some file →
      Step paths folder ((folder.rebind (Function.update (Function.update folder.names
        (paths store) (some file)) (tempPath (paths store)) none)).move store .renamed)
  | synced {folder store} : folder.calls store = .renamed →
      Step paths folder (folder.sync.move store .synced)
  | reopened {folder store file} : folder.calls store = .synced →
      folder.names (paths store) = some file →
      Step paths folder ((folder.reopen store file).move store .idle)
  | failed {folder} (store) : Step paths folder (folder.move store .idle)
  | flushed {folder} : Step paths folder folder.sync
  | crashed {folder} (names) :
      (∀ name, ∃ directory ∈ folder.names :: folder.unsynced, names name = directory name) →
      Step paths folder { files := folder.files, names }

end Steps

/-- No temporary name is another store's temporary name or path. -/
def Separate (paths : ι → FileName) : Prop :=
  ∀ store other, store ≠ other →
    tempPath (paths store) ≠ tempPath (paths other) ∧ tempPath (paths store) ≠ paths other

/-- Whatever directory a crash may bring back has every store's own file at its path, and a
compaction finds its own file at its temporary name. -/
structure Apart (folder : StoreFolder ι) (paths : ι → FileName) : Prop where
  held : ∀ directory ∈ folder.names :: folder.unsynced, ∀ store,
    ∃ file, directory (paths store) = some file ∧ Whole folder.files store file
  handle : ∀ store file, folder.handles store = some file → Whole folder.files store file
  created : ∀ store file, folder.calls store = .created file →
    folder.names (tempPath (paths store)) = some file ∧
      folder.files[file]? = some ⟨store, .halfWritten⟩
  written : ∀ store, folder.calls store = .written →
    ∃ file, folder.names (tempPath (paths store)) = some file ∧
      folder.files[file]? = some ⟨store, .compacted⟩

section Apart

variable {folder : StoreFolder ι} {paths : ι → FileName}

theorem Apart.intact (apart : folder.Apart paths) : folder.Intact paths :=
  apart.held folder.names List.mem_cons_self

theorem Fresh.apart (fresh : folder.Fresh paths) : folder.Apart paths where
  held := by
    intro directory recent
    simp only [fresh.unsynced, List.mem_singleton] at recent
    exact recent ▸ fresh.intact
  handle := by simp [fresh.handles]
  created := by simp [fresh.calls]
  written := by simp [fresh.calls]

theorem Whole.append {files : List (StoreFile ι)} {store : ι} {file : Nat}
    (whole : Whole files store file) (more : List (StoreFile ι)) :
    Whole (files ++ more) store file := by
  obtain ⟨made, found, own⟩ := whole
  exact ⟨made, List.getElem?_append_left (List.getElem?_eq_some_iff.mp found).1 ▸ found, own⟩

/-- Writing to a file that is not whole yet leaves the whole ones alone. -/
theorem Whole.fill {store : ι} {file other : Nat} {owner : ι}
    (whole : Whole folder.files store file)
    (half : folder.files[other]? = some ⟨owner, .halfWritten⟩) :
    Whole (folder.fill other).files store file := by
  obtain ⟨made, found, own, stage⟩ := whole
  have apart : other ≠ file := by
    rintro rfl
    rw [half] at found
    exact stage (Option.some.inj found ▸ rfl)
  exact ⟨made, by simpa [StoreFolder.fill, apart] using found, own, stage⟩

theorem Apart.sync (apart : folder.Apart paths) : folder.sync.Apart paths where
  held := by
    intro directory recent
    obtain rfl := List.mem_singleton.mp recent
    exact apart.held folder.names List.mem_cons_self
  handle := apart.handle
  created := apart.created
  written := apart.written

theorem Apart.crash (apart : folder.Apart paths) {names : FileName → Option Nat}
    (recent : ∀ name, ∃ directory ∈ folder.names :: folder.unsynced, names name = directory name) :
    Apart { files := folder.files, names } paths where
  held := by
    intro directory found store
    obtain rfl := List.mem_singleton.mp found
    obtain ⟨before, known, same⟩ := recent (paths store)
    exact same ▸ apart.held before known store
  handle := nofun
  created := nofun
  written := nofun

theorem Apart.append (apart : folder.Apart paths) (file : StoreFile ι) :
    (folder.append file).Apart paths where
  held := by
    intro directory recent store
    obtain ⟨held, named, whole⟩ := apart.held directory recent store
    exact ⟨held, named, whole.append [file]⟩
  handle := fun store held opened => (apart.handle store held opened).append [file]
  created := by
    intro store held stands
    obtain ⟨named, half⟩ := apart.created store held stands
    exact ⟨named, List.getElem?_append_left (List.getElem?_eq_some_iff.mp half).1 ▸ half⟩
  written := by
    intro store stands
    obtain ⟨held, named, done⟩ := apart.written store stands
    exact ⟨held, named, List.getElem?_append_left (List.getElem?_eq_some_iff.mp done).1 ▸ done⟩

/-- Its temporary name is not a store's path. -/
theorem Apart.own (apart : folder.Apart paths) (store : ι) (value : Option Nat) :
    ∃ file, Function.update folder.names (tempPath (paths store)) value (paths store) = some file ∧
      Whole folder.files store file := by
  obtain ⟨file, named, whole⟩ := apart.intact store
  exact ⟨file, by rw [Function.update_of_ne (tempPath_ne _).symm]; exact named, whole⟩

theorem Apart.paths_ne (apart : folder.Apart paths) {store other : ι} (distinct : store ≠ other) :
    paths store ≠ paths other := by
  intro same
  obtain ⟨file, named, made, found, own, _⟩ := apart.intact store
  obtain ⟨file', named', made', found', own', _⟩ := apart.intact other
  rw [same, named'] at named
  rw [← Option.some.inj named, found'] at found
  exact distinct (own.symm.trans (Option.some.inj found ▸ own'))

variable [DecidableEq ι]

theorem Apart.move (apart : folder.Apart paths) {store : ι} {call : CompactCall}
    (created : ∀ file, call = .created file →
      folder.names (tempPath (paths store)) = some file ∧
        folder.files[file]? = some ⟨store, .halfWritten⟩)
    (written : call = .written → ∃ file, folder.names (tempPath (paths store)) = some file ∧
      folder.files[file]? = some ⟨store, .compacted⟩) :
    (folder.move store call).Apart paths where
  held := apart.held
  handle := apart.handle
  created := by
    intro other file stands
    simp only [StoreFolder.move, Function.update_apply] at stands
    split at stands
    · rename_i same
      exact same ▸ created file stands
    · exact apart.created other file stands
  written := by
    intro other stands
    simp only [StoreFolder.move, Function.update_apply] at stands
    split at stands
    · rename_i same
      exact same ▸ written stands
    · exact apart.written other stands

theorem Apart.reopen (apart : folder.Apart paths) {store : ι} {file : Nat}
    (named : folder.names (paths store) = some file) : (folder.reopen store file).Apart paths where
  held := apart.held
  handle := by
    intro other opened found
    simp only [StoreFolder.reopen, Function.update_apply] at found
    split at found
    · rename_i same
      obtain ⟨held, own, whole⟩ := apart.intact store
      rw [named] at own
      rw [same, ← Option.some.inj found, Option.some.inj own]
      exact whole
    · exact apart.handle other opened found
  created := apart.created
  written := apart.written

/-- A store that waits for nothing at its temporary name may change that name and its path. -/
theorem Apart.rebind (apart : folder.Apart paths) (separate : Separate paths) (store : ι)
    {names : FileName → Option Nat}
    (quiet : (∀ file, folder.calls store ≠ .created file) ∧ folder.calls store ≠ .written)
    (others : ∀ name, name ≠ tempPath (paths store) → name ≠ paths store →
      names name = folder.names name)
    (own : ∃ file, names (paths store) = some file ∧ Whole folder.files store file) :
    (folder.rebind names).Apart paths where
  held := by
    intro directory recent other
    rcases List.mem_cons.mp recent with now | before
    · rw [now]
      by_cases same : store = other
      · exact same ▸ own
      · obtain ⟨file, named, whole⟩ := apart.intact other
        have kept := others _ (separate store other same).2.symm (apart.paths_ne same).symm
        exact ⟨file, kept.trans named, whole⟩
    · exact apart.held directory before other
  handle := apart.handle
  created := by
    intro other file stands
    have same : store ≠ other := fun same => quiet.1 file (same ▸ stands)
    obtain ⟨named, half⟩ := apart.created other file stands
    exact ⟨(others _ (separate store other same).1.symm
      (separate other store same.symm).2).trans named, half⟩
  written := by
    intro other stands
    have same : store ≠ other := fun same => quiet.2 (same ▸ stands)
    obtain ⟨file, named, done⟩ := apart.written other stands
    exact ⟨file, (others _ (separate store other same).1.symm
      (separate other store same.symm).2).trans named, done⟩

/-- The compacted file is not another store's, nor anyone's before it is whole. -/
theorem Apart.fill (apart : folder.Apart paths) {store : ι} {file : Nat}
    (stands : folder.calls store = .created file) :
    ((folder.fill file).move store .written).Apart paths := by
  obtain ⟨named, half⟩ := apart.created store file stands
  have done : (folder.fill file).files[file]? = some ⟨store, .compacted⟩ := by
    simp [StoreFolder.fill, half]
  constructor
  case held =>
    intro directory recent other
    obtain ⟨held, named, whole⟩ := apart.held directory recent other
    exact ⟨held, named, whole.fill half⟩
  case handle => exact fun other held opened => (apart.handle other held opened).fill half
  case created =>
    intro other held moved
    by_cases same : other = store
    · simp [StoreFolder.move, same] at moved
    · have waits : folder.calls other = .created held := by
        simpa [StoreFolder.move, StoreFolder.fill, same] using moved
      obtain ⟨namedOther, halfOther⟩ := apart.created other held waits
      have distinct : file ≠ held := by
        rintro rfl
        rw [half] at halfOther
        exact same (StoreFile.mk.inj (Option.some.inj halfOther)).1.symm
      have kept : (folder.fill file).files[held]? = folder.files[held]? := by
        simp [StoreFolder.fill, distinct]
      exact ⟨namedOther, kept.trans halfOther⟩
  case written =>
    intro other moved
    by_cases same : other = store
    · exact ⟨file, same ▸ named, same ▸ done⟩
    · have waits : folder.calls other = .written := by
        simpa [StoreFolder.move, StoreFolder.fill, same] using moved
      obtain ⟨held, namedOther, doneOther⟩ := apart.written other waits
      have distinct : file ≠ held := by
        rintro rfl
        rw [half] at doneOther
        exact absurd doneOther (by simp)
      have kept : (folder.fill file).files[held]? = folder.files[held]? := by
        simp [StoreFolder.fill, distinct]
      exact ⟨held, namedOther, kept.trans doneOther⟩

end Apart

section Steps

variable [DecidableEq ι] {folder next : StoreFolder ι} {paths : ι → FileName}

theorem Apart.step (apart : folder.Apart paths) (separate : Separate paths)
    (step : Step paths folder next) : next.Apart paths := by
  cases step with
  | opened idle named => exact apart.reopen named
  | began idle opened => exact apart.move nofun nofun
  | @removed store stands =>
    have rebound : (folder.rebind (Function.update folder.names (tempPath (paths store))
        none)).Apart paths :=
      apart.rebind separate store ⟨by simp [stands], by simp [stands]⟩
        (fun name other _ => Function.update_of_ne other ..) (apart.own store _)
    exact rebound.move nofun nofun
  | @created store source made stands free opened found =>
    obtain ⟨same, foundSame, owned, _⟩ := apart.handle store source opened
    rw [found] at foundSame
    obtain rfl := Option.some.inj foundSame
    have rebound : (folder.rebind (Function.update folder.names (tempPath (paths store))
        (some folder.files.length))).Apart paths :=
      apart.rebind separate store ⟨by simp [stands], by simp [stands]⟩
        (fun name other _ => Function.update_of_ne other ..) (apart.own store _)
    refine (rebound.append ⟨made.owner, .halfWritten⟩).move ?_ nofun
    intro file same
    obtain rfl := CompactCall.created.inj same
    refine ⟨Function.update_self .., ?_⟩
    change (folder.files ++ [⟨made.owner, .halfWritten⟩])[folder.files.length]? = _
    simp [owned]
  | @written store file stands => exact apart.fill stands
  | @renamed store file stands named =>
    obtain ⟨own, ownNamed, done⟩ := apart.written store stands
    obtain rfl : file = own := Option.some.inj (named.symm.trans ownNamed)
    have moved : (folder.move store .renamed).Apart paths := apart.move nofun nofun
    have stage : (folder.move store .renamed).calls store = .renamed := Function.update_self ..
    have rebound : ((folder.move store .renamed).rebind (Function.update (Function.update
        folder.names (paths store) (some file)) (tempPath (paths store)) none)).Apart paths := by
      refine moved.rebind separate store ⟨by simp [stage], by simp [stage]⟩ ?_ ?_
      · intro name temp path
        rw [Function.update_of_ne temp, Function.update_of_ne path]
        rfl
      · refine ⟨file, ?_, _, done, rfl, nofun⟩
        rw [Function.update_of_ne (tempPath_ne _).symm, Function.update_self]
    exact rebound
  | @synced store stands => exact apart.sync.move nofun nofun
  | @reopened store file stands named => exact (apart.reopen named).move nofun nofun
  | failed store => exact apart.move nofun nofun
  | flushed => exact apart.sync
  | crashed names recent => exact apart.crash recent

theorem move_move (folder : StoreFolder ι) (store : ι) (first second : CompactCall) :
    (folder.move store first).move store second = folder.move store second := by
  simp [StoreFolder.move]

/-- A compaction up to its empty temporary file. -/
def restart (folder : StoreFolder ι) (paths : ι → FileName) (store owner : ι) : StoreFolder ι :=
  (((folder.rebind (Function.update folder.names (tempPath (paths store)) none)).rebind
    (Function.update (Function.update folder.names (tempPath (paths store)) none)
      (tempPath (paths store)) (some folder.files.length))).append ⟨owner, .halfWritten⟩).move store
        (.created folder.files.length)

@[simp] theorem restart_handles (store owner : ι) :
    (folder.restart paths store owner).handles = folder.handles := rfl

@[simp] theorem restart_files (store owner : ι) :
    (folder.restart paths store owner).files = folder.files ++ [⟨owner, .halfWritten⟩] := rfl

@[simp] theorem restart_calls (store owner : ι) :
    (folder.restart paths store owner).calls =
      Function.update folder.calls store (.created folder.files.length) := rfl

variable {start : StoreFolder ι → Prop}

end Steps

section Examples

end Examples

end StoreFolder

end Valise
