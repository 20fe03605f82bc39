import Leviathan.Py.JsonSteps

/-!
# What `json.loads` builds

* `loads_wf`: no object that `loads` builds repeats a key, so its `dumps` reads back.
-/

namespace Py

theorem Json.wfElems_append {xs : List Json} {v : Json} (h : Json.WfElems xs) (hv : v.Wf) :
    Json.WfElems (xs ++ [v]) := by
  induction xs with
  | nil => exact ⟨hv, trivial⟩
  | cons x xs ih => exact ⟨h.1, ih h.2⟩

theorem Json.wfMembers_set {ms : Dict Str Json} {v : Json} (h : Json.WfMembers ms) (hv : v.Wf)
    (k : Str) : Json.WfMembers (Dict.set ms k v) := by
  induction ms with
  | nil => exact ⟨hv, trivial⟩
  | cons entry ms ih =>
    rw [Dict.set]
    split
    · exact ⟨hv, h.2⟩
    · exact ⟨h.1, ih h.2⟩

/-- An assignment to a key keeps an object well formed. -/
theorem Json.wf_set {ms : Dict Str Json} {v : Json} (h : (Json.obj ms).Wf) (hv : v.Wf) (k : Str) :
    (Json.obj (Dict.set ms k v)).Wf :=
  ⟨Dict.KeysNodup.set h.1 k v, Json.wfMembers_set h.2 hv k⟩

theorem Json.IsAtom.wf {v : Json} (h : v.IsAtom) : v.Wf := by
  cases v with
  | null | bool | int | float => trivial
  | str | arr | obj => cases h

/-- The container so far is well formed. -/
def Frame.Wf : Frame → Prop
  | .arr xs => (Json.arr xs).Wf
  | .obj ms _ => (Json.obj ms).Wf

namespace Scan

/-- Every container and every value so far is well formed. -/
structure Wf (q : Scan) : Prop where
  stack : ∀ f ∈ q.stack, f.Wf
  mode : match q.mode with
    | .key ms _ | .colon ms _ | .member ms | .keyStr ms _ => (Json.obj ms).Wf
    | .elem xs => (Json.arr xs).Wf
    | .done v | .word _ _ v => v.Wf
    | .value _ | .str _ | .num _ _ => True

variable {st : List Frame} {q q' : Scan} {c : Char}

theorem wf_push (hst : ∀ f ∈ st, f.Wf) {f : Frame} (hf : f.Wf) : ∀ g ∈ f :: st, g.Wf :=
  fun _ hg => (List.mem_cons.mp hg).elim (· ▸ hf) (hst _)

theorem wf_give (hst : ∀ f ∈ st, f.Wf) {v : Json} (hv : v.Wf) : (give v st).Wf := by
  cases st with
  | nil => exact ⟨hst, hv⟩
  | cons f st =>
    have hrest : ∀ g ∈ st, g.Wf := fun g hg => hst g (List.mem_cons_of_mem f hg)
    have hf := hst f (by simp)
    cases f with
    | arr xs => exact ⟨hrest, Json.wfElems_append hf hv⟩
    | obj ms k => exact ⟨hrest, Json.wf_set hf hv k⟩

/-- **One character keeps the scan well formed.** -/
theorem wf_steps (hs : Steps q c q') (h : q.Wf) : q'.Wf := by
  induction hs with
  | blank => exact h
  | string | number | inString | inNumber => exact ⟨h.stack, trivial⟩
  | object => exact ⟨h.stack, List.Pairwise.nil, trivial⟩
  | array => exact ⟨wf_push h.stack trivial, trivial⟩
  | emptyArray => exact wf_give (fun g hg => h.stack g (List.mem_cons_of_mem _ hg)) trivial
  | word hv | negInfinity hv => exact ⟨h.stack, hv.wf⟩
  | key | nextMember | inKey | keyEnds | inWord => exact ⟨h.stack, h.mode⟩
  | colon | nextElem => exact ⟨wf_push h.stack h.mode, trivial⟩
  | emptyObject | arrayEnds | objectEnds | wordEnds => exact wf_give h.stack h.mode
  | stringEnds => exact wf_give h.stack trivial
  | numberEnds hv _ ih => exact ih (wf_give h.stack hv.wf)

theorem wf_settle (h : q.Wf) (hs : q.settle = some q') : q'.Wf := by
  rcases settle_cases hs with rfl | ⟨pos, text, st, v, rfl, hv, rfl⟩
  · exact h
  · exact wf_give h.stack hv.wf

end Scan

/-- **Every value that `loads` builds is well formed.** -/
theorem loads_wf {text : Str} {v : Json} (h : loads text = some v) : v.Wf := by
  obtain ⟨q, hq, hf⟩ := Option.bind_eq_some_iff.mp h
  have hwf : q.Wf := Scan.Steps.run Scan.wf_steps ⟨by simp [Scan.init], trivial⟩ hq
  obtain ⟨q', hq', hf⟩ := Option.bind_eq_some_iff.mp hf
  have hmode := (Scan.wf_settle hwf hq').mode
  split at hf
  · rename_i w he
    rw [he] at hmode
    cases hf
    exact hmode
  · cases hf

end Py
