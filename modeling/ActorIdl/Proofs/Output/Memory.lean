import ActorIdl.Output
import Mathlib.Data.List.Nodup
/-! # Outputs in memory

    The filer in memory adds an output to those that are there or changes nothing.  It never holds
    two outputs of one kind under one path, so an output can be got back by its kind and path
    exactly if it was created. -/

namespace ActorIdl

/-- What tells outputs apart. -/
def OutputFile.key (f : OutputFile) : OutputKind × String := (f.kind, f.path)

namespace Outputs

variable {o o' : Outputs} {kind : OutputKind} {path contents : String}

/-- No two outputs have one kind and path. -/
def Distinct (o : Outputs) : Prop := (o.files.map (·.key)).Nodup

theorem distinct_empty (failing : List String) : (empty failing).Distinct := List.nodup_nil

theorem filer_cases (kind : OutputKind) (path contents : String) (o : Outputs) :
    (∃ e, filer kind path contents o = (.error e, o)) ∨
      o.get? kind path = none ∧ filer kind path contents o =
        (.ok (), { o with files := o.files ++ [⟨kind, path, contents⟩] }) := by
  unfold filer
  cases hrefusal : o.refusal? kind path with
  | some e => exact .inl ⟨e, rfl⟩
  | none =>
    refine .inr ⟨?_, rfl⟩
    unfold refusal? at hrefusal
    split at hrefusal
    · cases hrefusal
    split at hrefusal
    · cases hrefusal
    split at hrefusal
    · cases hrefusal
    · rename_i hget
      simpa using hget

theorem files_of_filer_ok (h : filer kind path contents o = (.ok (), o')) :
    o'.files = o.files ++ [⟨kind, path, contents⟩] := by
  rcases filer_cases kind path contents o with ⟨e, he⟩ | ⟨_, hok⟩
  · rw [he] at h
    cases h
  · rw [hok] at h
    cases h
    rfl

theorem mem_keys_iff : (kind, path) ∈ o.files.map (·.key) ↔ (o.get? kind path).isSome = true := by
  unfold get?
  rw [Option.isSome_map, List.find?_isSome, List.mem_map]
  refine exists_congr fun f => and_congr_right fun _ => ?_
  rw [OutputFile.key, Prod.mk.injEq, Bool.and_eq_true, beq_iff_eq, beq_iff_eq]

/-- An output that is added is found unless another one is there. -/
theorem get?_append (o : Outputs) (f : OutputFile) (kind : OutputKind) (path : String) :
    ({ o with files := o.files ++ [f] } : Outputs).get? kind path =
      (o.get? kind path).or (if f.key = (kind, path) then some f.contents else none) := by
  have hfound : (f.kind == kind && f.path == path) = decide (f.key = (kind, path)) := by
    rw [OutputFile.key, Bool.eq_iff_iff]
    simp
  unfold get?
  rw [List.find?_append, Option.map_or, List.find?_singleton, hfound]
  by_cases hkey : f.key = (kind, path)
  · rw [if_pos hkey, decide_eq_true hkey]
    rfl
  · rw [if_neg hkey, decide_eq_false hkey]
    rfl

theorem distinct_filer (h : o.Distinct) : (filer kind path contents o).2.Distinct := by
  rcases filer_cases kind path contents o with ⟨e, he⟩ | ⟨hnew, hok⟩
  · rw [he]
    exact h
  · have hnot : (kind, path) ∉ o.files.map (·.key) := by
      rw [mem_keys_iff, hnew]
      exact Bool.false_ne_true
    rw [hok]
    unfold Distinct
    rw [List.map_append]
    exact h.append (List.nodup_singleton _) (List.disjoint_singleton.mpr hnot)

theorem get?_eq_some_iff (h : o.Distinct) :
    o.get? kind path = some contents ↔ ⟨kind, path, contents⟩ ∈ o.files := by
  unfold get?
  constructor
  · intro hget
    obtain ⟨f, hf, rfl⟩ := Option.map_eq_some_iff.mp hget
    have hkey := List.find?_some hf
    rw [Bool.and_eq_true, beq_iff_eq, beq_iff_eq] at hkey
    obtain ⟨rfl, rfl⟩ := hkey
    exact List.mem_of_find?_eq_some hf
  · intro hmem
    -- some output is found, and with one kind and path it is this one
    have hsome : (o.get? kind path).isSome = true :=
      mem_keys_iff.mp (List.mem_map.mpr ⟨_, hmem, rfl⟩)
    obtain ⟨c, hc⟩ := Option.isSome_iff_exists.mp hsome
    obtain ⟨f, hf, rfl⟩ := Option.map_eq_some_iff.mp hc
    have hkey := List.find?_some hf
    rw [Bool.and_eq_true, beq_iff_eq, beq_iff_eq] at hkey
    have heq : f = ⟨kind, path, contents⟩ := by
      apply List.inj_on_of_nodup_map h (List.mem_of_find?_eq_some hf) hmem
      rw [OutputFile.key, hkey.1, hkey.2]
      rfl
    rw [hf, heq]
    rfl

end Outputs

end ActorIdl
