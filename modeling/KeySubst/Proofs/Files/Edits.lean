import KeySubst.Files.FileSystem
import KeySubst.Proofs.Files.Tree
import Mathlib.Order.Defs.Unbundled

/-!
# What computations do to files

`Ensures` relates the workspaces before and after a computation in a way that its parts keep up.
-/

namespace KeySubst.Workspace

def after {α : Type} (w : Workspace) (x : StateM Workspace α) : Workspace := (x w).2

def result {α : Type} (w : Workspace) (x : StateM Workspace α) : α := (x w).1

def Ensures {α : Type} (R : Workspace → Workspace → Prop) (x : StateM Workspace α)
    (Q : α → Prop := fun _ => True) : Prop :=
  ∀ w, R w (w.after x) ∧ Q (x w).1

variable {α β : Type} {R : Workspace → Workspace → Prop} {P : α → Prop} {Q : β → Prop}

theorem Ensures.pure [Std.Refl R] {a : α} (holds : P a) :
    Ensures R (Pure.pure a : StateM Workspace α) P :=
  fun w => ⟨Std.Refl.refl w, holds⟩

theorem Ensures.bind [IsTrans Workspace R] {x : StateM Workspace α} {f : α → StateM Workspace β}
    (first : Ensures R x P) (next : ∀ a, P a → Ensures R (f a) Q) : Ensures R (x >>= f) Q := by
  intro w
  obtain ⟨before, holds⟩ := first w
  obtain ⟨after, result⟩ := next (x w).1 holds (x w).2
  exact ⟨IsTrans.trans _ _ _ before after, result⟩

theorem Ensures.isFile [Std.Refl R] (path : String) : Ensures R (FileSystem.isFile path) :=
  fun w => ⟨Std.Refl.refl w, trivial⟩

theorem Ensures.isDirectory [Std.Refl R] (path : String) :
    Ensures R (FileSystem.isDirectory path) :=
  fun w => ⟨Std.Refl.refl w, trivial⟩

theorem Ensures.read [Std.Refl R] (path : String) : Ensures R (FileSystem.read path) :=
  fun w => ⟨Std.Refl.refl w, trivial⟩

theorem after_pure (w : Workspace) (a : α) : w.after (Pure.pure a) = w := rfl

theorem after_bind (w : Workspace) (x : StateM Workspace α) (f : α → StateM Workspace β) :
    w.after (x >>= f) = (w.after x).after (f (x w).1) := rfl

theorem after_read_bind (w : Workspace) (path : String)
    (f : Except SystemError String → StateM Workspace α) :
    w.after (FileSystem.read path >>= f) = w.after (f (w.tree.read w.directory path)) := rfl

theorem after_bind_of_result {w : Workspace} {x : StateM Workspace α}
    {f : α → StateM Workspace β} {a : α} (first : w.result x = a) :
    w.after (x >>= f) = (w.after x).after (f a) := by
  subst first
  rfl

theorem result_bind_of_result {w : Workspace} {x : StateM Workspace α}
    {f : α → StateM Workspace β} {a : α} (first : w.result x = a) :
    w.result (x >>= f) = (w.after x).result (f a) := by
  subst first
  rfl

theorem result_bind_pure (w : Workspace) (x : StateM Workspace α) (g : α → β) :
    w.result (x >>= fun a => Pure.pure (g a)) = g (w.result x) := rfl

theorem after_bind_pure (w : Workspace) (x : StateM Workspace α) (g : α → β) :
    w.after (x >>= fun a => Pure.pure (g a)) = w.after x := rfl

theorem ok_of_result_bind {ε : Type} {w : Workspace} {x : StateM Workspace (Except ε α)}
    {f : Except ε α → StateM Workspace β} {b : β}
    (shows : ∀ e w', result w' (f (.error e)) ≠ b) (done : w.result (x >>= f) = b) :
    ∃ a, w.result x = .ok a ∧ (w.after x).result (f (.ok a)) = b ∧
      w.after (x >>= f) = (w.after x).after (f (.ok a)) := by
  cases first : w.result x with
  | error e =>
    rw [result_bind_of_result first] at done
    exact absurd done (shows e _)
  | ok a =>
    rw [result_bind_of_result first] at done
    exact ⟨a, rfl, done, after_bind_of_result first⟩

theorem result_read_bind (w : Workspace) (path : String)
    (f : Except SystemError String → StateM Workspace α) :
    w.result (FileSystem.read path >>= f) = w.result (f (w.tree.read w.directory path)) := rfl

theorem read_after_write {w : Workspace} {path text : String}
    (done : w.result (FileSystem.write path text) = .ok ()) :
    (w.after (FileSystem.write path text)).tree.read
      (w.after (FileSystem.write path text)).directory path = .ok text := by
  change (change _ w).1 = .ok () at done
  change (change _ w).2.tree.read (change _ w).2.directory path = .ok text
  rw [change] at done ⊢
  cases wrote : w.tree.write w.directory path text with
  | ok t => simpa only [wrote] using FileTree.read_of_write wrote
  | error failure =>
    rw [wrote] at done
    cases done

def HasFile (files : String → Prop) (w : Workspace) (place : Place) : Prop :=
  ∃ path content, files path ∧ w.tree.locate w.directory path = .ok place ∧
    w.tree.node? place = some (.file content)

def HasDirectory (directories : String → Prop) (w : Workspace) (place : Place) : Prop :=
  ∃ path, directories path ∧ w.tree.locate w.directory path = .ok place ∧
    w.tree.node? place = some .directory

/-- Directories stay, and where anything is different there is now a file at a path of the first
kind, or a directory at a path of the second kind where nothing was before. -/
structure Edits (files directories : String → Prop) (w w' : Workspace) : Prop where
  directory : w'.directory = w.directory
  keeps : w.tree.Keeps w'.tree
  changed : ∀ place, w'.tree.node? place ≠ w.tree.node? place →
    w'.HasFile files place ∨ (w.tree.node? place = none ∧ w'.HasDirectory directories place)

variable {files directories : String → Prop} {w w' w'' : Workspace} {place : Place}

theorem Edits.refl (w : Workspace) : Edits files directories w w :=
  ⟨rfl, fun _ here => here, fun _ differs => absurd rfl differs⟩

theorem Edits.trans (first : Edits files directories w w')
    (second : Edits files directories w' w'') : Edits files directories w w'' := by
  refine ⟨second.directory.trans first.directory, fun place here =>
    second.keeps place (first.keeps place here), fun place differs => ?_⟩
  -- What the second part leaves alone was changed by the first one.
  by_cases later : w''.tree.node? place = w'.tree.node? place
  · rw [later] at differs
    rcases first.changed place differs with ⟨path, content, kind, located, file⟩ |
      ⟨nothing, path, kind, located, made⟩
    · refine .inl ⟨path, content, kind, ?_, later.trans file⟩
      rw [second.directory]
      exact FileTree.locate_of_keeps second.keeps located
    · refine .inr ⟨nothing, path, kind, ?_, later.trans made⟩
      rw [second.directory]
      exact FileTree.locate_of_keeps second.keeps located
  · rcases second.changed place later with file | ⟨nothing, made⟩
    · exact .inl file
    · refine .inr ⟨?_, made⟩
      by_cases earlier : w'.tree.node? place = w.tree.node? place
      · exact earlier ▸ nothing
      · rcases first.changed place earlier with ⟨_, _, _, _, file⟩ | ⟨_, _, _, _, made⟩
        · rw [file] at nothing
          cases nothing
        · rw [made] at nothing
          cases nothing

theorem Edits.mono {files' : String → Prop} (edits : Edits files directories w w')
    (allowed : ∀ path, files path → files' path) : Edits files' directories w w' := by
  refine ⟨edits.directory, edits.keeps, fun place differs => ?_⟩
  rcases edits.changed place differs with ⟨path, content, kind, file⟩ | made
  · exact .inl ⟨path, content, allowed path kind, file⟩
  · exact .inr made

theorem Edits.file_eq (edits : Edits files directories w w') {content : ByteArray}
    (file : w.tree.node? place = some (.file content))
    (apart : ∀ path, files path → Path.place w.directory path ≠ place) :
    w'.tree.node? place = w.tree.node? place := by
  by_contra differs
  rcases edits.changed place differs with ⟨path, _, kind, located, -⟩ | ⟨nothing, -⟩
  · rw [edits.directory] at located
    exact apart path kind (FileTree.locate_place located).symm
  · rw [file] at nothing
    cases nothing

instance : Std.Refl (Edits files directories) := ⟨Edits.refl⟩

instance : IsTrans Workspace (Edits files directories) := ⟨fun _ _ _ => Edits.trans⟩

theorem Edits.put {n : Node} {path : String} (located : w.tree.locate w.directory path = .ok place)
    (free : w.tree.node? place ≠ some .directory)
    (kind : (∃ content, n = .file content) ∧ files path ∨
      n = .directory ∧ w.tree.node? place = none ∧ directories path) :
    Edits files directories w { w with tree := w.tree.put place n } := by
  have inner : place ≠ [] := fun root => free (by rw [root]; rfl)
  have keeps : w.tree.Keeps (w.tree.put place n) := FileTree.keeps_put free
  have reached := FileTree.locate_of_keeps keeps located
  have there : (w.tree.put place n).node? place = some n := by
    rw [FileTree.node?_put n inner, if_pos rfl]
  refine ⟨rfl, keeps, fun other differs => ?_⟩
  have same : other = place := by
    by_contra apart
    exact differs (by rw [FileTree.node?_put n inner, if_neg apart])
  subst same
  rcases kind with ⟨⟨content, rfl⟩, kind⟩ | ⟨rfl, nothing, kind⟩
  · exact .inl ⟨path, content, kind, reached, there⟩
  · exact .inr ⟨nothing, path, kind, reached, there⟩

theorem Ensures.write {path : String} (kind : files path) (text : String) :
    Ensures (Edits files directories) (FileSystem.write path text) := by
  intro w
  refine ⟨?_, trivial⟩
  change Edits files directories w (change _ w).2
  rw [change]
  split
  · rename_i t wrote
    obtain ⟨place, located, free, rfl⟩ := FileTree.exists_of_write wrote
    exact Edits.put located free (.inl ⟨⟨_, rfl⟩, kind⟩)
  · exact Edits.refl w

theorem Ensures.makeDirectory {path : String} (kind : directories path) :
    Ensures (Edits files directories) (FileSystem.makeDirectory path) := by
  intro w
  refine ⟨?_, trivial⟩
  change Edits files directories w (change _ w).2
  rw [change]
  split
  · rename_i t made
    obtain ⟨place, located, nothing, rfl⟩ := FileTree.exists_of_makeDirectory made
    exact Edits.put located (by simp [nothing]) (.inr ⟨rfl, nothing, kind⟩)
  · exact Edits.refl w

theorem Ensures.ensureDirectory {path : String} (kind : directories path) :
    Ensures (Edits files directories) (FileSystem.ensureDirectory path) := by
  refine (Ensures.makeDirectory kind).bind fun made _ => ?_
  cases made with
  | ok _ => exact .pure trivial
  | error failure => exact (Ensures.isDirectory path).bind fun _ _ => .pure trivial

theorem Ensures.ensureDirectories {paths : List String} (kind : ∀ path ∈ paths, directories path) :
    Ensures (Edits files directories) (FileSystem.ensureDirectories paths) := by
  induction paths with
  | nil => exact .pure trivial
  | cons path paths ih =>
    obtain ⟨first, others⟩ := List.forall_mem_cons.1 kind
    refine (Ensures.ensureDirectory first).bind fun made _ => ?_
    cases made with
    | ok _ => exact ih others
    | error failure => exact .pure trivial

theorem Ensures.missingDirectories {missing paths : List String}
    (before : ∀ path ∈ missing, directories path) (kind : ∀ path ∈ paths, directories path) :
    Ensures (Edits files directories) (FileSystem.missingDirectories missing paths)
      fun found => ∀ missing, found = .ok missing → ∀ path ∈ missing, directories path := by
  have done : ∀ found, (Except.ok missing : Except SystemError (List String)) = .ok found →
      ∀ path ∈ found, directories path := by
    rintro found ⟨⟩
    exact before
  induction paths generalizing missing with
  | nil => exact .pure done
  | cons path paths ih =>
    obtain ⟨first, others⟩ := List.forall_mem_cons.1 kind
    rw [FileSystem.missingDirectories]
    split
    · exact .pure done
    · refine (Ensures.makeDirectory first).bind fun made _ => ?_
      split
      · exact .pure done
      · have more : ∀ other ∈ path :: missing, directories other :=
          List.forall_mem_cons.2 ⟨first, before⟩
        exact ih more others (by rintro found ⟨⟩; exact more)
      · refine (Ensures.isDirectory path).bind fun here _ => .pure ?_
        split
        · exact done
        · rintro found ⟨⟩

theorem Ensures.makeDirectories {path : String}
    (kind : ∀ outer ∈ Path.ancestors path, directories outer) :
    Ensures (Edits files directories) (FileSystem.makeDirectories path) := by
  refine (Ensures.missingDirectories (by simp) kind).bind fun found missing => ?_
  cases found with
  | error failure => exact .pure trivial
  | ok paths => exact .ensureDirectories (missing paths rfl)

end KeySubst.Workspace
