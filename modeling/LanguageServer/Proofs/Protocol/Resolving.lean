import LanguageServer.Proofs.Protocol.CompletionItems

/-!
# What resolving an item changes

Lists of candidates are stored one after the other, and the versions count them. Whatever data a
client sends with an item, resolving it touches the item only if the data name the last version and
a candidate of the last list, and if there is something to fill in (`Resolved`). Then the text of
its edit is another one, and perhaps its additional edits are. Everything else about it stays.
-/

namespace LanguageServer

/-- A list of candidates, with the place where it was asked for. -/
structure CandidateList where
  key : FileKey
  text : Text
  position : Position
  candidates : List Candidate

namespace ItemEdit

def newText : ItemEdit → Text
  | single e => e.newText
  | insertReplace newText _ _ => newText

/-- The range that is replaced, or the two ranges that the client can choose between. -/
def ranges : ItemEdit → List Range
  | single e => [e.range]
  | insertReplace _ insert replace => [insert, replace]

theorem newText_setText (text : Text) (e : ItemEdit) : (e.setText text).newText = text := by
  cases e <;> rfl

theorem ranges_setText (text : Text) (e : ItemEdit) : (e.setText text).ranges = e.ranges := by
  cases e <;> rfl

end ItemEdit

/-- An item in which nothing differs but the text that is inserted, and the additional edits if
there are any. An item without an edit gets one, for the range of its candidate. -/
structure CompletionItem.FilledIn (item item' : CompletionItem) (replace : Range)
    (r : Resolution) : Prop where
  others : item'.others = item.others
  data : item'.data = item.data
  additional : item'.additionalEdits
    = if r.additional = [] then item.additionalEdits else some r.additional
  inserted : item'.textEdit.map (·.newText) = some r.newText
  ranges : item'.textEdit.map (·.ranges)
    = some ((item.textEdit.map (·.ranges)).getD [replace])

theorem CompletionItem.filledIn_apply (item : CompletionItem) (replace : Range) (r : Resolution) :
    item.FilledIn (item.apply replace r) replace r where
  others := rfl
  data := rfl
  additional := by
    rw [apply]
    cases r.additional <;> rfl
  inserted := by
    rw [apply]
    cases item.textEdit with
    | none => rfl
    | some e => exact congrArg some (e.newText_setText r.newText)
  ranges := by
    rw [apply]
    cases item.textEdit with
    | none => rfl
    | some e => exact congrArg some (e.ranges_setText r.newText)

/-- The item of a candidate once it has been asked what there is to fill in. -/
def CompletionItem.ofAnswer (c : Candidate) (version index : Nat) :
    Option Resolution → CompletionItem
  | none => .ofCandidate c version index
  | some r => { CompletionItem.ofCandidate c version index with
      textEdit := some (.single ⟨c.replace, r.newText⟩)
      additionalEdits := if r.additional = [] then none else some r.additional }

/-- How the resolving of an item ends while a list of candidates is the last one. -/
inductive Resolved (q : Capabilities) (candidates : List Candidate) (version : Nat)
    (item : CompletionItem) : Except Fault CompletionItem → Prop
  /-- The item names another version, no candidate of the list, or nothing of that kind. -/
  | foreign : (∀ index, item.origin? = some (version, index) → candidates[index]? = none) →
      Resolved q candidates version item (.ok item)
  | nothing {index : Nat} {c : Candidate} : item.origin? = some (version, index) →
      candidates[index]? = some c → q.resolveCompletion candidates index false = .ok none →
      Resolved q candidates version item (.ok item)
  | failed {index : Nat} {c : Candidate} {fault : Fault} : item.origin? = some (version, index) →
      candidates[index]? = some c → q.resolveCompletion candidates index false = .error fault →
      Resolved q candidates version item (.error fault)
  | filled {index : Nat} {c : Candidate} {r : Resolution} {item' : CompletionItem} :
      item.origin? = some (version, index) → candidates[index]? = some c →
      q.resolveCompletion candidates index false = .ok (some r) →
      item.FilledIn item' c.replace r → Resolved q candidates version item (.ok item')

namespace CompletionCache

variable {cache : CompletionCache}

/-- The candidates of the last list. -/
def candidates (cache : CompletionCache) : List Candidate :=
  (cache.current.map (·.candidates)).getD []

def storeList (cache : CompletionCache) (list : CandidateList) : CompletionCache :=
  cache.store list.key list.text list.position list.candidates

/-- The versions that lists get when they are stored one after the other. -/
def versions (cache : CompletionCache) : List CandidateList → List Nat
  | [] => []
  | list :: lists => (cache.storeList list).version :: (cache.storeList list).versions lists

theorem versions_eq (cache : CompletionCache) (lists : List CandidateList) :
    cache.versions lists = List.range' (cache.version + 1) lists.length := by
  induction lists generalizing cache with
  | nil => rfl
  | cons list lists ih => exact congrArg ((cache.version + 1) :: ·) (ih (cache.storeList list))

theorem version_foldl (cache : CompletionCache) (lists : List CandidateList) :
    (lists.foldl storeList cache).version = cache.version + lists.length := by
  induction lists generalizing cache with
  | nil => rfl
  | cons list lists ih =>
      have hnext : (cache.storeList list).version = cache.version + 1 := rfl
      rw [List.foldl_cons, ih, hnext, List.length_cons]
      omega

/-- Only the last list is there. -/
theorem candidates_foldl (lists : List CandidateList) :
    (lists.foldl storeList {}).candidates = (lists.getLast?.map (·.candidates)).getD [] := by
  rcases List.eq_nil_or_concat lists with rfl | ⟨earlier, last, rfl⟩
  · rfl
  · rw [List.concat_eq_append, List.foldl_append, List.getLast?_concat]
    rfl

/-- An item is looked at by its version first, then by its candidate, and only then is it asked
what there is to fill in. -/
theorem resolved_resolve (cache : CompletionCache) (q : Capabilities) (item : CompletionItem) :
    Resolved q cache.candidates cache.version item (cache.resolve q false item) := by
  cases hcurrent : cache.current with
  | none =>
      have hempty : cache.candidates = [] := by rw [candidates, hcurrent]; rfl
      have hsame : cache.resolve q false item = .ok item := by
        rw [resolve, hcurrent]
        cases item.origin? <;> rfl
      rw [hsame, hempty]
      exact .foreign fun _ _ => rfl
  | some s =>
      have hversion : cache.version = s.version := by rw [version, hcurrent]; rfl
      have hcandidates : cache.candidates = s.candidates := by rw [candidates, hcurrent]; rfl
      rw [resolve, hcurrent, hversion, hcandidates]
      cases horigin : item.origin? with
      | none => exact .foreign fun index h => by rw [horigin] at h; cases h
      | some origin =>
          obtain ⟨named, index⟩ := origin
          dsimp only
          split
          · next hother =>
              refine .foreign fun other h => ?_
              rw [horigin] at h
              cases h
              exact absurd rfl hother
          · next hsame =>
              have hnamed : named = s.version := Decidable.not_not.1 hsame
              subst hnamed
              cases hc : s.candidates[index]? with
              | none =>
                  refine .foreign fun other h => ?_
                  rw [horigin] at h
                  cases h
                  exact hc
              | some c =>
                  rcases hanswer : q.resolveCompletion s.candidates index false with fault | _ | r
                  · exact .failed horigin hc hanswer
                  · exact .nothing horigin hc hanswer
                  · exact .filled horigin hc hanswer (item.filledIn_apply c.replace r)

/-- What is filled in for an item of the last list is what there is for its own candidate. -/
theorem resolve_ofCandidate {c : Candidate} {index : Nat}
    (hc : cache.candidates[index]? = some c) {q : Capabilities} {answer : Option Resolution}
    (hanswer : q.resolveCompletion cache.candidates index false = .ok answer) :
    cache.resolve q false (.ofCandidate c cache.version index)
      = .ok (.ofAnswer c cache.version index answer) := by
  have horigin := CompletionItem.origin?_ofCandidate c cache.version index
  cases hcurrent : cache.current with
  | none =>
      rw [candidates, hcurrent] at hc
      cases hc
  | some s =>
      have hversion : cache.version = s.version := by rw [version, hcurrent]; rfl
      have hcandidates : cache.candidates = s.candidates := by rw [candidates, hcurrent]; rfl
      rw [hversion] at horigin ⊢
      rw [hcandidates] at hc hanswer
      rw [resolve, hcurrent, horigin]
      simp only [ne_eq, not_true_eq_false, if_false, hc, hanswer]
      cases answer with
      | none => rfl
      | some r =>
          obtain ⟨newText, _ | _⟩ := r
          · rfl
          · rfl

/-- However many lists have been stored, they got the versions one, two, three and so on, and an
item with any data is resolved by the last list (`Resolved`). An item that was made for one of its
candidates is filled in for just that candidate, and with the queries that compare words it becomes
a call if it can be called. -/
theorem resolved_by_last_list (lists : List CandidateList) (q : Capabilities)
    (item : CompletionItem) :
    let cache := lists.foldl storeList {}
    let last := (lists.getLast?.map (·.candidates)).getD []
    versions {} lists = List.range' 1 lists.length ∧
    Resolved q last lists.length item (cache.resolve q false item) ∧
    ∀ index c, last[index]? = some c →
      let own := CompletionItem.ofCandidate c lists.length index
      (∀ answer, q.resolveCompletion last index false = .ok answer →
        cache.resolve q false own = .ok (.ofAnswer c lists.length index answer)) ∧
      cache.resolve .standard false own = .ok
        (if c.kind.isCallable then
          { own with textEdit := some (.single ⟨c.replace, c.insertText ++ ['(', ')']⟩) }
        else own) := by
  intro cache last
  have hversion : cache.version = lists.length := (version_foldl {} lists).trans (Nat.zero_add _)
  have hcandidates : cache.candidates = last := candidates_foldl lists
  rw [← hversion, ← hcandidates]
  refine ⟨hversion ▸ versions_eq {} lists, resolved_resolve cache q item, ?_⟩
  intro index c hc own
  refine ⟨fun answer hanswer => resolve_ofCandidate hc hanswer, ?_⟩
  have hstandard : Capabilities.standard.resolveCompletion = Query.resolveCompletion := rfl
  have hanswer : Capabilities.standard.resolveCompletion cache.candidates index false = .ok
      (if c.kind.isCallable then some ⟨c.insertText ++ ['(', ')'], []⟩ else none) := by
    rw [hstandard, Query.resolveCompletion, hc]
    rfl
  rw [resolve_ofCandidate hc hanswer]
  cases c.kind.isCallable with
  | true => rfl
  | false => rfl

/-- An item for the first candidate of a second list. -/
theorem resolved_by_last_list_run :
    let run : Candidate := ⟨"run".toList, .function, none, "run".toList, ⟨⟨0, 0⟩, ⟨0, 1⟩⟩⟩
    let key := FileKey.ofUri "file:///p/a".toList
    let own := CompletionItem.ofCandidate run 2 0
    resolve ([⟨key, [], ⟨0, 0⟩, []⟩, ⟨key, "r".toList, ⟨0, 1⟩, [run]⟩].foldl storeList {})
        .standard false own =
      .ok { own with textEdit := some (.single ⟨⟨⟨0, 0⟩, ⟨0, 1⟩⟩, "run()".toList⟩) } := by
  intro run key own
  have hlists := resolved_by_last_list
    [⟨key, [], ⟨0, 0⟩, []⟩, ⟨key, "r".toList, ⟨0, 1⟩, [run]⟩] .standard own
  exact (hlists.2.2 0 run rfl).2

end CompletionCache

end LanguageServer
