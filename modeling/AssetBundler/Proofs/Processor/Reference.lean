import AssetBundler.Processor.Reference
import AssetBundler.Proofs.Action
import AssetBundler.Proofs.Table
import Mathlib.Data.List.Perm.Subperm

/-!
# Following references

A reference stands for what a module exports, which can be a reference again or a mapping around one. Where
such a run ends it passes each exported reference once at most, so it ends within as many hops as there are
exported references (`EndsIn.le`). What an entry is registered as is decided at that end, with the options
of all mappings on the way (`coerceWith_of_endsIn`); a run that goes in a circle is nested too deep.
-/

namespace AssetBundler

open AssetBundler.Action

variable {library : Library}

namespace Library

/-- What goes wrong with a reference outside the pipeline: its module is to be found from another one that
is not there, or its import raises something. -/
inductive Raises (library : Library) : Failure → Prop
  | relative (reference : String) : Raises library (.relativeReference reference)
  | importing {name : String} {e : Raised} (h : library.modules.get? name = some (.raises e)) :
      Raises library e.1

theorem lookup_error {reference : String} {e : Failure} (h : library.lookup reference = .error e) :
    (∃ fault, e = .invalidProcessor fault) ∨ library.Raises e := by
  unfold lookup at h
  dsimp only at h
  split at h
  · exact .inl ⟨_, (Except.error.inj h).symm⟩
  · split at h
    · exact .inr (Except.error.inj h ▸ .relative reference)
    · split at h
      · exact .inl ⟨_, (Except.error.inj h).symm⟩
      · next hmodule => exact .inr (Except.error.inj h ▸ .importing hmodule)
      · split at h
        · exact .inl ⟨_, (Except.error.inj h).symm⟩
        · cases h

/-- The references that modules export. -/
def references (library : Library) : List String := library.modules.flatMap fun e ↦ e.2.references

theorem mem_references {reference next : String} {found : Entry}
    (h : library.lookup reference = .ok found) (hnext : found.reference? = some next) :
    next ∈ library.references := by
  unfold lookup at h
  dsimp only at h
  split at h
  · cases h
  · split at h
    · cases h
    · split at h
      · cases h
      · cases h
      · next names hmodule =>
        split at h
        · cases h
        · next hname =>
          cases h
          refine List.mem_flatMap.2 ⟨_, Table.mem_of_get? hmodule, ?_⟩
          exact List.mem_filterMap.2 ⟨_, Table.mem_of_get? hname, hnext⟩

end Library

namespace Entry

variable {entry last : Entry} {levels : List (Option Value)} {outcome : Except Failure Entry} {n m : Nat}

/-- An entry that leads no further. -/
def IsLast : Entry → Prop
  | .reference _ | .mapping .. => False
  | _ => True

/-- Where an entry leads, past so many references and with the options of the mappings on the way, the
outermost first: to an entry that leads no further, or to a reference that cannot be looked up. -/
inductive EndsIn (library : Library) :
    Nat → Entry → List (Option Value) → Except Failure Entry → Prop
  | stays {entry : Entry} (h : entry.IsLast) : EndsIn library 0 entry [] (.ok entry)
  | fails {reference : String} {e : Failure} (h : library.lookup reference = .error e) :
      EndsIn library 1 (.reference reference) [] (.error e)
  | next {reference : String} {found : Entry} {n : Nat} {levels : List (Option Value)}
      {outcome : Except Failure Entry} (h : library.lookup reference = .ok found)
      (hrest : EndsIn library n found levels outcome) :
      EndsIn library (n + 1) (.reference reference) levels outcome
  | inside {inner : Entry} {given : Option Value} {n : Nat} {levels : List (Option Value)}
      {outcome : Except Failure Entry} (h : EndsIn library n inner levels outcome) :
      EndsIn library n (.mapping inner given) (given :: levels) outcome

/-- Where an entry leads. -/
def Ends (library : Library) (entry : Entry) (levels : List (Option Value))
    (outcome : Except Failure Entry) : Prop :=
  ∃ n, EndsIn library n entry levels outcome

theorem EndsIn.unique {levels' : List (Option Value)} {outcome' : Except Failure Entry}
    (h : EndsIn library n entry levels outcome) (h' : EndsIn library m entry levels' outcome') :
    n = m ∧ levels = levels' ∧ outcome = outcome' := by
  induction h generalizing m levels' with
  | stays hlast =>
    cases h' with
    | stays => exact ⟨rfl, rfl, rfl⟩
    | fails => exact hlast.elim
    | next => exact hlast.elim
    | inside => exact hlast.elim
  | fails hlookup =>
    cases h' with
    | stays hlast => exact hlast.elim
    | fails hlookup' =>
      rw [hlookup] at hlookup'
      exact ⟨rfl, rfl, congrArg Except.error (Except.error.inj hlookup')⟩
    | next hlookup' =>
      rw [hlookup] at hlookup'
      cases hlookup'
  | next hlookup _ ih =>
    cases h' with
    | stays hlast => exact hlast.elim
    | fails hlookup' =>
      rw [hlookup] at hlookup'
      cases hlookup'
    | next hlookup' hrest' =>
      rw [hlookup] at hlookup'
      cases hlookup'
      obtain ⟨rfl, rfl, rfl⟩ := ih hrest'
      exact ⟨rfl, rfl, rfl⟩
  | inside _ ih =>
    cases h' with
    | stays hlast => exact hlast.elim
    | inside hinner' =>
      obtain ⟨rfl, rfl, rfl⟩ := ih hinner'
      exact ⟨rfl, rfl, rfl⟩

/-- The references of a run but for the first are exported. -/
theorem subset_references {reference : String} {run : List String}
    (hlookup : library.lookup reference = .ok entry)
    (h : ∀ r ∈ run, entry.reference? = some r ∨ r ∈ library.references) : run ⊆ library.references := by
  intro r hr
  rcases h r hr with hfirst | hmem
  · exact Library.mem_references hlookup hfirst
  · exact hmem

/-- The references of a run are different ones: each is nearer to the end than the one before. All of them
are exported but for the first. -/
theorem EndsIn.exists_run (h : EndsIn library n entry levels outcome) : ∃ run : List String,
    run.length = n ∧ run.Nodup ∧
      (∀ r ∈ run, ∃ k ≤ n, ∃ rest, EndsIn library k (.reference r) rest outcome) ∧
      ∀ r ∈ run, entry.reference? = some r ∨ r ∈ library.references := by
  induction h with
  | stays => exact ⟨[], rfl, List.nodup_nil, List.forall_mem_nil _, List.forall_mem_nil _⟩
  | @fails reference e hlookup =>
    refine ⟨[reference], rfl, List.nodup_singleton _, ?_, ?_⟩
    · exact List.forall_mem_singleton.2 ⟨1, Nat.le_refl 1, [], .fails hlookup⟩
    · exact List.forall_mem_singleton.2 (.inl rfl)
  | @next reference found n levels outcome hlookup hrest ih =>
    obtain ⟨run, hlength, hnodup, hnear, hexported⟩ := ih
    refine ⟨reference :: run, by rw [List.length_cons, hlength], ?_, ?_, ?_⟩
    · refine List.nodup_cons.2 ⟨fun hmem ↦ ?_, hnodup⟩
      obtain ⟨k, hk, rest, hends⟩ := hnear reference hmem
      have hsame := (hends.unique (.next hlookup hrest)).1
      omega
    · refine List.forall_mem_cons.2 ⟨⟨n + 1, Nat.le_refl _, levels, .next hlookup hrest⟩, fun r hr ↦ ?_⟩
      obtain ⟨k, hk, hends⟩ := hnear r hr
      exact ⟨k, Nat.le_succ_of_le hk, hends⟩
    · refine List.forall_mem_cons.2 ⟨.inl rfl, fun r hr ↦ .inr ?_⟩
      exact subset_references hlookup hexported hr
  | inside _ ih => exact ih

/-- A run that ends takes one reference more than modules export at most. -/
theorem EndsIn.le (h : EndsIn library n entry levels outcome) : n ≤ library.referenceCount + 1 := by
  induction h with
  | stays => exact Nat.zero_le _
  | fails => exact Nat.le_add_left 1 _
  | next hlookup hrest =>
    obtain ⟨run, rfl, hnodup, -, hexported⟩ := hrest.exists_run
    have hsubset := subset_references hlookup hexported
    exact Nat.succ_le_succ (List.subperm_of_subset hnodup hsubset).length_le
  | inside _ ih => exact ih

theorem EndsIn.isLast (h : EndsIn library n entry levels (.ok last)) : last.IsLast := by
  generalize hend : Except.ok last = outcome at h
  induction h with
  | stays hlast =>
    cases hend
    exact hlast
  | fails => cases hend
  | next _ _ ih => exact ih hend
  | inside _ ih => exact ih hend

theorem EndsIn.error {e : Failure} (h : EndsIn library n entry levels (.error e)) :
    (∃ fault, e = .invalidProcessor fault) ∨ library.Raises e := by
  generalize hend : Except.error e = outcome at h
  induction h with
  | stays => cases hend
  | fails hlookup =>
    cases hend
    exact Library.lookup_error hlookup
  | next _ _ ih => exact ih hend
  | inside _ ih => exact ih hend

/-- Options are left out, a mapping, or false. -/
def IsOptions (given : Option Value) : Prop :=
  ∀ v, given = some v → (∃ fields, v = .map fields) ∨ v.truthy = false

/-- The fields of options that are a mapping. -/
def fieldsIn : Option Value → Value.Fields
  | some (.map fields) => fields
  | _ => []

/-- All options of some mappings, the outermost first, and those from outside. -/
def merged (levels : List (Option Value)) (options : Value.Fields) : Value.Fields :=
  levels.foldl (fun options given ↦ (fieldsIn given).merge options) options

variable {given : Option Value}

theorem fieldsOf_of_isOptions (h : IsOptions given) : fieldsOf given = .ok (fieldsIn given) := by
  cases given with
  | none => rfl
  | some v =>
    rcases h v rfl with ⟨fields, rfl⟩ | hfalse
    · rfl
    · cases v with
      | map fields => rfl
      | _ => simp [fieldsOf, fieldsIn, hfalse]

theorem fieldsOf_of_not_isOptions (h : ¬IsOptions given) :
    ∃ v, fieldsOf given = .error (.invalidProcessor (.badOptions v)) := by
  cases given with
  | none => exact absurd (fun _ hv ↦ nomatch hv) h
  | some v =>
    refine ⟨v, ?_⟩
    have htrue : v.truthy = true := by
      by_contra hfalse
      exact h fun w hw ↦ .inr (Option.some.inj hw ▸ eq_false_of_ne_true hfalse)
    cases v with
    | map fields => exact absurd (fun w hw ↦ .inl ⟨fields, (Option.some.inj hw).symm⟩) h
    | _ => simp [fieldsOf, htrue]

variable {hops : Nat} {options : Value.Fields}

theorem coerceWith_mapping_of_isOptions {follow : String → Value.Fields → Except Failure Assignment}
    (h : IsOptions given) (inner : Entry) : (mapping inner given).coerceWith follow options =
      inner.coerceWith follow ((fieldsIn given).merge options) := by
  rw [coerceWith, fieldsOf_of_isOptions h]
  rfl

theorem coerceWith_mapping_of_not_isOptions
    {follow : String → Value.Fields → Except Failure Assignment} (h : ¬IsOptions given) (inner : Entry) :
    ∃ v, (mapping inner given).coerceWith follow options =
      .error (.invalidProcessor (.badOptions v)) := by
  obtain ⟨v, hv⟩ := fieldsOf_of_not_isOptions h
  refine ⟨v, ?_⟩
  rw [coerceWith, hv]
  rfl

theorem coerceWith_of_isLast (h : last.IsLast)
    (follow follow' : String → Value.Fields → Except Failure Assignment) (options : Value.Fields) :
    last.coerceWith follow options = last.coerceWith follow' options := by
  cases last with
  | reference reference => exact h.elim
  | mapping inner given => exact h.elim
  | _ => rfl

theorem follow_of_lookup_ok {reference : String} (h : library.lookup reference = .ok entry) :
    library.follow (hops + 1) reference options = entry.coerceWith (library.follow hops) options := by
  rw [Library.follow, h]
  rfl

theorem follow_of_lookup_error {reference : String} {e : Failure}
    (h : library.lookup reference = .error e) :
    library.follow (hops + 1) reference options = .error e := by
  rw [Library.follow, h]
  rfl

/-- With enough hops and with options at every mapping the end decides. -/
theorem coerceWith_of_endsIn (h : EndsIn library n entry levels outcome) (hhops : n ≤ hops)
    (hlevels : ∀ given ∈ levels, IsOptions given) : entry.coerceWith (library.follow hops) options =
      outcome >>= fun last ↦ last.coerceWith (library.follow 0) (merged levels options) := by
  induction h generalizing hops options with
  | stays hlast => exact coerceWith_of_isLast hlast _ _ options
  | fails hlookup =>
    obtain ⟨hops, rfl⟩ := Nat.exists_eq_add_of_le' hhops
    exact follow_of_lookup_error hlookup
  | next hlookup _ ih =>
    obtain ⟨hops, rfl⟩ := Nat.exists_eq_add_of_le' (Nat.le_of_add_left_le hhops)
    exact (follow_of_lookup_ok hlookup).trans (ih (by omega) hlevels)
  | inside _ ih =>
    rw [List.forall_mem_cons] at hlevels
    rw [coerceWith_mapping_of_isOptions hlevels.1]
    exact ih hhops hlevels.2

/-- With enough hops, a mapping without options on the way is refused. -/
theorem coerceWith_of_not_isOptions (h : EndsIn library n entry levels outcome) (hhops : n ≤ hops)
    (hlevels : ¬∀ given ∈ levels, IsOptions given) :
    ∃ v, entry.coerceWith (library.follow hops) options = .error (.invalidProcessor (.badOptions v)) := by
  induction h generalizing hops options with
  | stays => exact absurd (List.forall_mem_nil _) hlevels
  | fails => exact absurd (List.forall_mem_nil _) hlevels
  | next hlookup _ ih =>
    obtain ⟨hops, rfl⟩ := Nat.exists_eq_add_of_le' (Nat.le_of_add_left_le hhops)
    rw [coerceWith, follow_of_lookup_ok hlookup]
    exact ih (by omega) hlevels
  | @inside inner given _ _ _ _ ih =>
    rw [List.forall_mem_cons, not_and_or] at hlevels
    by_cases hgiven : IsOptions given
    · rw [coerceWith_mapping_of_isOptions hgiven]
      exact ih hhops (hlevels.resolve_left (not_not_intro hgiven))
    · exact coerceWith_mapping_of_not_isOptions hgiven inner

/-- A run that has no end uses up all hops, unless a mapping on the way is refused. -/
theorem ends_or_coerceWith (library : Library) (hops : Nat) (entry : Entry) (options : Value.Fields) :
    (∃ levels outcome, Ends library entry levels outcome) ∨
      entry.coerceWith (library.follow hops) options = .error .nestedTooDeep ∨
      ∃ v, entry.coerceWith (library.follow hops) options = .error (.invalidProcessor (.badOptions v)) := by
  induction hops generalizing entry options with
  | zero =>
    induction entry generalizing options with
    | reference reference => exact .inr (.inl rfl)
    | mapping inner given ih =>
      by_cases hgiven : IsOptions given
      · rw [coerceWith_mapping_of_isOptions hgiven]
        exact (ih _).imp_left fun ⟨levels, outcome, n, hends⟩ ↦ ⟨_, outcome, n, .inside hends⟩
      · exact .inr (.inr (coerceWith_mapping_of_not_isOptions hgiven inner))
    | _ => exact .inl ⟨[], _, 0, .stays trivial⟩
  | succ hops ihops =>
    induction entry generalizing options with
    | reference reference =>
      rcases hlookup : library.lookup reference with e | found
      · exact .inl ⟨[], _, 1, .fails hlookup⟩
      · rw [coerceWith, follow_of_lookup_ok hlookup]
        exact (ihops found options).imp_left fun ⟨levels, outcome, n, hends⟩ ↦
          ⟨levels, outcome, n + 1, .next hlookup hends⟩
    | mapping inner given ih =>
      by_cases hgiven : IsOptions given
      · rw [coerceWith_mapping_of_isOptions hgiven]
        exact (ih _).imp_left fun ⟨levels, outcome, n, hends⟩ ↦ ⟨_, outcome, n, .inside hends⟩
      · exact .inr (.inr (coerceWith_mapping_of_not_isOptions hgiven inner))
    | _ => exact .inl ⟨[], _, 0, .stays trivial⟩

/-! ## Failures -/

theorem coerce_of_ends (hends : Ends library entry levels outcome)
    (hlevels : ∀ given ∈ levels, IsOptions given) : entry.coerce library options =
      outcome >>= fun last ↦ last.coerceWith (library.follow 0) (merged levels options) := by
  obtain ⟨n, hn⟩ := hends
  exact coerceWith_of_endsIn hn hn.le hlevels

theorem coerce_of_not_isOptions (options : Value.Fields) (hends : Ends library entry levels outcome)
    (hlevels : ¬∀ given ∈ levels, IsOptions given) :
    ∃ v, entry.coerce library options = .error (.invalidProcessor (.badOptions v)) := by
  obtain ⟨n, hn⟩ := hends
  exact coerceWith_of_not_isOptions hn hn.le hlevels

/-- What stands at the end of a run is refused as an invalid processor if it is refused. -/
theorem invalidProcessor_of_isLast (hlast : last.IsLast)
    {follow : String → Value.Fields → Except Failure Assignment} {e : Failure}
    (h : last.coerceWith follow options = .error e) : ∃ fault, e = .invalidProcessor fault := by
  cases last with
  | reference reference => exact hlast.elim
  | mapping inner given => exact hlast.elim
  | processor p => cases h
  | function p => cases h
  | registered a => cases h
  | otherClass name => exact ⟨_, (Except.error.inj h).symm⟩
  | classless shown => exact ⟨_, (Except.error.inj h).symm⟩
  | other shown => exact ⟨_, (Except.error.inj h).symm⟩

/-- What stops the coercion of an entry without being the fault of the entry. -/
inductive Stops (library : Library) (entry : Entry) : Failure → Prop
  /-- The entry leads to a reference that raises something. -/
  | raises {levels : List (Option Value)} {e : Failure} (hends : Ends library entry levels (.error e))
      (h : library.Raises e) : Stops library entry e
  /-- The entry leads around in a circle. -/
  | circles (h : ∀ levels outcome, ¬Ends library entry levels outcome) :
      Stops library entry .nestedTooDeep

/-- How coercion fails where references end. -/
theorem coerce_error_of_ends (hends : Ends library entry levels outcome) {e : Failure}
    (h : entry.coerce library options = .error e) : (∃ fault, e = .invalidProcessor fault) ∨
      (∀ given ∈ levels, IsOptions given) ∧ outcome = .error e ∧ library.Raises e := by
  by_cases hlevels : ∀ given ∈ levels, IsOptions given
  · rw [coerce_of_ends hends hlevels] at h
    obtain ⟨n, hn⟩ := hends
    cases outcome with
    | error e' =>
      obtain rfl := Except.error.inj h
      exact hn.error.imp_right fun hraises ↦ ⟨hlevels, rfl, hraises⟩
    | ok last => exact .inl (invalidProcessor_of_isLast hn.isLast h)
  · obtain ⟨v, hv⟩ := coerce_of_not_isOptions options hends hlevels
    rw [hv] at h
    exact .inl ⟨_, (Except.error.inj h).symm⟩

theorem coerce_error {e : Failure} (h : entry.coerce library options = .error e) :
    (∃ fault, e = .invalidProcessor fault) ∨ entry.Stops library e := by
  by_cases hends : ∃ levels outcome, Ends library entry levels outcome
  · obtain ⟨levels, outcome, hends⟩ := hends
    refine (coerce_error_of_ends hends h).imp_right ?_
    rintro ⟨-, rfl, hraises⟩
    exact .raises hends hraises
  · rcases ends_or_coerceWith library (library.referenceCount + 1) entry options with
      hends' | hdeep | ⟨v, hv⟩
    · exact absurd hends' hends
    · obtain rfl := Except.error.inj (h.symm.trans hdeep)
      exact .inr (.circles fun levels outcome h ↦ hends ⟨levels, outcome, h⟩)
    · exact .inl ⟨_, Except.error.inj (h.symm.trans hv)⟩

end Entry

end AssetBundler
