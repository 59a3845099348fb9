import LanguageServer.Proofs.Session.Projects
import LanguageServer.Proofs.Workspace.Rebuild

/-!
# Files that have been renamed

A session that hears of renamed files reads the old and the new addresses again. Nothing else
happens to the project, so its index is as good as one that is built anew under the conditions
under which that holds for reading keys again.
-/

namespace LanguageServer

namespace Workspace

/-- Reading keys again one after the other. -/
theorem project?_forM_refresh {w : Workspace} {id : Nat} {p : Project}
    (hp : w.project? id = some p) (uris : List Text) :
    ((uris.forM fun uri => discard (refresh id (.ofUri uri))).run w).2.project? id
      = some (p.refreshAll w.disk (uris.map .ofUri)) := by
  induction uris generalizing w p with
  | nil => exact hp
  | cons uri uris ih =>
      have hrefreshed : ((refresh id (.ofUri uri)).run w).2.project? id
          = some (p.refresh w.disk (.ofUri uri)).1 := by
        rw [refresh_run, hp]
        exact project?_setProject (w := ((note (.refresh (.ofUri uri))).run w).2) hp _
      have hdisk : ((refresh id (.ofUri uri)).run w).2.disk = w.disk := by
        rw [refresh_run, hp]
        rfl
      have hrest := ih hrefreshed
      rw [hdisk] at hrest
      exact hrest

end Workspace

namespace Session

variable {s : Session} {docs : Documents} {p : Project}

theorem project?_didRename (hp : s.workspace.project? docs.project = some p) (uris : List Text) :
    (s.didRename docs uris).workspace.project? docs.project
      = some (p.refreshAll s.workspace.disk (uris.map .ofUri)) := by
  rw [didRename, within_workspace]
  exact Workspace.project?_forM_refresh hp uris

/-- When keys are read again after the files have changed, as a session does that hears of renamed
files, the index is the one that would be built exactly if, under the key of every file that is not
open, there is listed now what was put there, or else what had been listed before. -/
theorem refreshed_index_eq_built_iff {before : FileTree} {libraries : List Text}
    (hsorted : p.editors.Sorted)
    (hbuilt : p.index = .build before p.directory libraries p.editors) (disk : FileTree) :
    (∀ keys, (p.refreshAll disk keys).index = .build disk p.directory libraries p.editors ↔
      ∀ key, p.editors.get? key = none →
        disk.listed? p.directory libraries key =
          (disk.reread? p.root keys key).getD (before.listed? p.directory libraries key)) ∧
    ∀ (s : Session) (docs : Documents) (uris : List Text),
      s.workspace.project? docs.project = some p → s.workspace.disk = disk →
        (s.didRename docs uris).workspace.project? docs.project
          = some (p.refreshAll disk (uris.map .ofUri)) := by
  refine ⟨p.index_refreshAll_eq_build_iff hsorted hbuilt, fun s docs uris hp hdisk => ?_⟩
  rw [project?_didRename hp, hdisk]

/-- A directory has been moved with the file in it. Under the old address of the file the index
still has its text, and the one that would be built does not. -/
theorem refreshed_index_of_moved_directory :
    let place (names : List String) : Place := names.map String.toList
    let source : Entry := .file (.text "fn b() {}".toList) true
    let before : FileTree := ⟨[(place ["p"], .directory), (place ["p", "sub"], .directory),
      (place ["p", "sub", "b.rs"], source)]⟩
    let after : FileTree := ⟨[(place ["p"], .directory), (place ["p", "moved"], .directory),
      (place ["p", "moved", "b.rs"], source)]⟩
    let uris := ["file:///p/sub".toList, "file:///p/moved".toList]
    let p : Project := .ofDirectory before [] (.ofUri Workspace.sampleRoot) "/p".toList
    let s : Session := { workspace := { disk := after, projects := [p] } }
    ∃ p', (s.didRename { project := 0 } uris).workspace.project? 0 = some p' ∧
      p'.index ≠ .build after p.directory [] p.editors ∧
      p'.index.map (·.1)
        = ["file:///p/moved/b.rs", "file:///p/sub/b.rs"].map (.ofUri ·.toList) := by
  intro place source before after uris p s
  obtain ⟨hiff, hrename⟩ := refreshed_index_eq_built_iff (p := p) Keyed.sorted_nil rfl after
  refine ⟨_, hrename s { project := 0 } uris rfl rfl, fun heq => ?_, by decide +kernel⟩
  have hstale := (hiff _).1 heq (.ofUri "file:///p/sub/b.rs".toList) rfl
  exact absurd hstale (by decide +kernel)

end Session

end LanguageServer
