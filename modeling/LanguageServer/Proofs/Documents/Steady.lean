import LanguageServer.Proofs.Documents.Along
import LanguageServer.Proofs.Workspace.Steady

/-!
# What operations on documents leave alone

Operations on documents are made of steady steps, so they neither open nor close projects, and
documents stay those of their project.
-/

namespace LanguageServer

open Workspace (Keeps)

theorem Workspace.workRelation_steady (id : Nat) : WorkRelation Steady id :=
  .of_operates .refl .trans Operates.steady

namespace Documents

theorem keeps_start (docs : Documents) (uri text : Text) (version : Int) :
    Keeps (docs.start uri text version) :=
  (Workspace.workRelation_steady _).start uri text version

theorem keeps_update (docs : Documents) (uri : Text) (version : Int)
    (changes : List ContentChange) : Keeps (docs.update uri version changes) :=
  (Workspace.workRelation_steady _).update uri version changes

theorem keeps_sync (docs : Documents) (uri : Text) : Keeps (docs.sync uri) :=
  (Workspace.workRelation_steady _).sync uri

theorem keeps_stop (docs : Documents) (uri : Text) : Keeps (docs.stop uri) :=
  (Workspace.workRelation_steady _).stop (Workspace.keeps_closeEditor _ _)

theorem keeps_closeAll (docs : Documents) : Keeps docs.closeAll :=
  (Workspace.workRelation_steady _).closeAll (Workspace.keeps_closeEditor _)

theorem mem_insertKey {key k : FileKey} {keys : List FileKey} :
    k ∈ insertKey key keys ↔ k = key ∨ k ∈ keys := by
  induction keys with
  | nil => simp [insertKey]
  | cons k' keys ih =>
      rw [insertKey]
      split
      · next hkey => simp [hkey]
      · split
        · simp
        · simp only [List.mem_cons, ih]
          exact or_left_comm

theorem mem_foldl_insertKey {k : FileKey} {more keys : List FileKey} :
    k ∈ more.foldl (fun ks k => insertKey k ks) keys ↔ k ∈ more ∨ k ∈ keys := by
  induction more generalizing keys with
  | nil => simp
  | cons key more ih =>
      rw [List.foldl_cons, ih, mem_insertKey, List.mem_cons, or_left_comm, or_assoc]

/-- All editors of the project are closed, those of documents and the other ones. -/
theorem closeAll_openFiles {docs : Documents} (haccepting : docs.accepting = true)
    (w : Workspace) : (docs.closeAll.run w).2.openFiles docs.project = [] := by
  let keys := (docs.managed.map (·.1)).foldl (fun ks k => insertKey k ks)
    (w.openFiles docs.project)
  have hrun : (docs.closeAll.run w).2
      = ((keys.forM (Workspace.closeEditor docs.project)).run w).2 := by
    unfold closeAll
    rw [if_pos haccepting]
    rfl
  rw [hrun, Workspace.openFiles_forM_closeEditor]
  refine List.filter_eq_nil_iff.2 fun key hkey => ?_
  simpa using mem_foldl_insertKey.2 (.inr hkey)

/-- Documents of the same project, which can be changed as before. -/
structure SameProject (docs docs' : Documents) : Prop where
  project : docs'.project = docs.project
  accepting : docs'.accepting = docs.accepting

theorem sameProject_start (docs : Documents) (uri text : Text) (version : Int) (w : Workspace) :
    SameProject docs ((docs.start uri text version).run w).1.2 := by
  rcases start_cases docs uri text version w with ⟨-, hdocs⟩ | ⟨-, hdocs⟩ <;> rw [hdocs]
  · exact ⟨rfl, rfl⟩
  · exact ⟨rfl, rfl⟩

theorem sameProject_update (docs : Documents) (uri : Text) (version : Int)
    (changes : List ContentChange) (w : Workspace) :
    SameProject docs ((docs.update uri version changes).run w).1.2 := by
  rcases update_cases docs uri version changes w with ⟨-, hdocs⟩ | ⟨-, hdocs⟩ <;> rw [hdocs]
  · exact ⟨rfl, rfl⟩
  · exact ⟨rfl, rfl⟩

theorem sameProject_sync (docs : Documents) (uri : Text) (w : Workspace) :
    SameProject docs ((docs.sync uri).run w).1.2 := by
  rcases sync_docs docs uri w with hdocs | hdocs <;> rw [hdocs]
  · exact ⟨rfl, rfl⟩
  · exact ⟨rfl, rfl⟩

theorem sameProject_stop (docs : Documents) (uri : Text) (w : Workspace) :
    SameProject docs ((docs.stop uri).run w).1.2 := by
  rcases stop_docs docs uri w with hdocs | hdocs <;> rw [hdocs]
  · exact ⟨rfl, rfl⟩
  · exact ⟨rfl, rfl⟩

end Documents

end LanguageServer
