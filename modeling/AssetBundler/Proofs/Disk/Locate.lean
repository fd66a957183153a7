import AssetBundler.Proofs.Action
import AssetBundler.Proofs.Disk.Kind
import Mathlib.Data.List.Induction

/-!
# Following paths

Following a path on a disk agrees with reading it off the text: where a path leads anywhere, it leads
to the place it spells. Whether it leads there depends on the kinds of places only, and a path that
leads somewhere goes on doing so while folders stay and its end exists.
-/

namespace AssetBundler

namespace Disk

open AssetBundler.Action

theorem enter_eq_ok {d : Disk} {place next : List String} {name : String} :
    d.enter place name = .ok next ↔ d.kindAt place = some none ∧
      (name = ".." ∧ next = place.dropLast ∨
        name ≠ ".." ∧ isTooLong name = false ∧ d.kindAt (place ++ [name]) ≠ none ∧
          next = place ++ [name]) := by
  rcases hn : d.node? place with _ | ⟨bytes, t⟩ | ⟨t, entries⟩
  · have hk : d.kindAt place = none := kindAt_eq_none.2 hn
    simp [enter, hn, hk]
  · have hk : d.kindAt place = some (some bytes) := kindAt_eq_file.2 ⟨t, hn⟩
    simp [enter, hn, hk]
  · have hk : d.kindAt place = some none := kindAt_eq_folder.2 ⟨t, entries, hn⟩
    have hentry : d.kindAt (place ++ [name]) ≠ none ↔
        (Node.Entries.get? entries name).isSome := by
      rw [ne_eq, kindAt_eq_none, node?_append, hn, Option.isSome_iff_ne_none]
      simp [Node.get?]
    rw [hentry]
    by_cases hup : name = ".."
    · simp [enter, hn, hk, hup, eq_comm (a := next)]
    · by_cases hlong : isTooLong name = true
      · simp [enter, hn, hk, hup, hlong]
      · by_cases hsome : (Node.Entries.get? entries name).isSome
        · simp [enter, hn, hk, hup, hlong, hsome, eq_comm (a := next)]
        · simp [enter, hn, hk, hup, hlong, hsome]

theorem foldlM_enter_eq_follow {d : Disk} {start names place : List String}
    (h : names.foldlM d.enter start = .ok place) : place = Path.follow start names := by
  induction names generalizing start with
  | nil =>
    cases h
    rfl
  | cons name names ih =>
    rw [List.foldlM_cons] at h
    obtain ⟨next, hnext, hrest⟩ := except_bind_eq_ok.1 h
    rw [ih hrest]
    obtain ⟨-, ⟨hup, rfl⟩ | ⟨hup, -, -, rfl⟩⟩ := enter_eq_ok.1 hnext
    · simp [Path.follow, hup]
    · simp [Path.follow, hup]

theorem locate_eq_place {d : Disk} {p : Path} {place : List String} (h : d.locate p = .ok place) :
    place = p.place d.here := foldlM_enter_eq_follow h

theorem find_eq_ok {d : Disk} {p : Path} {n : Node} :
    d.find p = .ok n ↔ ∃ place, d.locate p = .ok place ∧ d.node? place = some n := by
  unfold find
  rw [except_bind_eq_ok]
  refine exists_congr fun place ↦ and_congr_right fun _ ↦ ?_
  cases d.node? place <;> simp

theorem foldlM_enter_of_no_up {d : Disk} {start names : List String} (hup : ".." ∉ names)
    (hlong : ∀ name ∈ names, isTooLong name = false) (h : d.kindAt (start ++ names) ≠ none) :
    names.foldlM d.enter start = .ok (start ++ names) := by
  induction names generalizing start with
  | nil =>
    rw [List.append_nil]
    rfl
  | cons name names ih =>
    rw [List.mem_cons, not_or] at hup
    have hfolder : d.kindAt start = some none := by
      by_contra hk
      exact h (kindAt_below hk (by simp))
    have hsplit : start ++ name :: names = (start ++ [name]) ++ names := by simp
    have hnext : d.kindAt (start ++ [name]) ≠ none := by
      intro hk
      cases names with
      | nil => exact h hk
      | cons next names => exact h (hsplit ▸ kindAt_below (by simp [hk]) (by simp))
    rw [hsplit] at h ⊢
    rw [List.foldlM_cons, except_bind_eq_ok]
    refine ⟨start ++ [name], enter_eq_ok.2 ⟨hfolder, .inr ⟨?_, ?_, hnext, rfl⟩⟩, ?_⟩
    · exact fun heq ↦ hup.1 heq.symm
    · exact hlong name (List.mem_cons_self ..)
    · exact ih hup.2 (fun n hn ↦ hlong n (List.mem_cons_of_mem _ hn)) h

theorem not_isTooLong_of_foldlM_enter {d : Disk} {start names place : List String}
    (hup : ".." ∉ names) (h : names.foldlM d.enter start = .ok place) :
    ∀ name ∈ names, isTooLong name = false := by
  induction names generalizing start with
  | nil => exact List.forall_mem_nil _
  | cons first names ih =>
    rw [List.mem_cons, not_or] at hup
    rw [List.foldlM_cons] at h
    obtain ⟨next, hnext, hrest⟩ := except_bind_eq_ok.1 h
    obtain ⟨-, ⟨heq, -⟩ | ⟨-, hlong, -, -⟩⟩ := enter_eq_ok.1 hnext
    · exact absurd heq.symm hup.1
    · exact List.forall_mem_cons.2 ⟨hlong, ih hup.2 hrest⟩

theorem foldlM_enter_persists {d e : Disk}
    (hfolder : ∀ place, d.kindAt place = some none → e.kindAt place = some none)
    {start names place : List String} (h : names.foldlM d.enter start = .ok place)
    (hend : e.kindAt place ≠ none) : names.foldlM e.enter start = .ok place := by
  induction names using List.reverseRecOn generalizing place with
  | nil => exact h
  | append_singleton names name ih =>
    rw [List.foldlM_append] at h ⊢
    obtain ⟨middle, hmiddle, hlast⟩ := except_bind_eq_ok.1 h
    rw [List.foldlM_cons] at hlast
    obtain ⟨last, hlast, hrest⟩ := except_bind_eq_ok.1 hlast
    cases hrest
    obtain ⟨hk, hcases⟩ := enter_eq_ok.1 hlast
    have hk' : e.kindAt middle = some none := hfolder middle hk
    rw [except_bind_eq_ok]
    refine ⟨middle, ih hmiddle (by simp [hk']), ?_⟩
    rw [List.foldlM_cons, except_bind_eq_ok]
    refine ⟨place, enter_eq_ok.2 ⟨hk', ?_⟩, rfl⟩
    rcases hcases with hup | ⟨hup, hlong, -, rfl⟩
    · exact .inl hup
    · exact .inr ⟨hup, hlong, hend, rfl⟩

/-- A path goes on leading to its place while folders stay and something is at its end. -/
theorem locate_persists {d e : Disk} (hhere : e.here = d.here)
    (hfolder : ∀ place, d.kindAt place = some none → e.kindAt place = some none)
    {p : Path} {place : List String} (h : d.locate p = .ok place)
    (hend : e.kindAt place ≠ none) : e.locate p = .ok place := by
  unfold locate at h ⊢
  rw [hhere]
  exact foldlM_enter_persists hfolder h hend

theorem names_eq_append {p : Path} {name : String} (h : p.names.getLast? = some name) :
    p.names = p.parent.names ++ [name] := by
  rw [List.getLast?_eq_some_iff] at h
  obtain ⟨above, habove⟩ := h
  rw [habove, Path.parent, habove, List.dropLast_concat]

theorem place_eq_append {here : List String} {p : Path} {name : String}
    (h : p.names.getLast? = some name) (hup : name ≠ "..") :
    p.place here = p.parent.place here ++ [name] := by
  unfold Path.place
  rw [names_eq_append h, Path.follow, List.foldl_append]
  simp only [List.foldl_cons, List.foldl_nil, hup, if_false]
  rfl

theorem slot_eq_ok {d : Disk} {p : Path} {name : String} {place : List String}
    (h : p.names.getLast? = some name) (hup : name ≠ "..") :
    d.slot p = .ok place ↔ ∃ above, d.locate p.parent = .ok above ∧
      d.kindAt above = some none ∧ isTooLong name = false ∧ place = above ++ [name] := by
  unfold slot
  rw [h]
  simp only [hup, if_false]
  rw [except_bind_eq_ok]
  constructor
  · rintro ⟨above, habove, hplace⟩
    rcases hn : d.node? above with _ | ⟨bytes, t⟩ | ⟨t, entries⟩
    · simp [hn] at hplace
    · simp [hn] at hplace
    · by_cases hlong : isTooLong name = true
      · simp [hn, hlong] at hplace
      · simp only [hn, hlong, if_false, Except.ok.injEq, Bool.false_eq_true] at hplace
        exact ⟨above, habove, kindAt_eq_folder.2 ⟨t, entries, hn⟩, by simpa using hlong,
          hplace.symm⟩
  · rintro ⟨above, habove, hk, hlong, rfl⟩
    obtain ⟨t, entries, hn⟩ := kindAt_eq_folder.1 hk
    exact ⟨above, habove, by simp [hn, hlong]⟩

theorem slot_eq_place {d : Disk} {p : Path} {place : List String} (h : d.slot p = .ok place) :
    place = p.place d.here := by
  cases hlast : p.names.getLast? with
  | none =>
    unfold slot at h
    rw [hlast] at h
    exact locate_eq_place h
  | some name =>
    by_cases hup : name = ".."
    · unfold slot at h
      simp only [hlast, hup, if_true] at h
      exact locate_eq_place h
    · obtain ⟨above, habove, -, -, rfl⟩ := (slot_eq_ok hlast hup).1 h
      rw [place_eq_append hlast hup, locate_eq_place habove]

theorem slot_persists {d e : Disk} (hhere : e.here = d.here)
    (hfolder : ∀ place, d.kindAt place = some none → e.kindAt place = some none)
    {p : Path} {name : String} (hlast : p.names.getLast? = some name) (hup : name ≠ "..")
    {place : List String} (h : d.slot p = .ok place) : e.slot p = .ok place := by
  rw [slot_eq_ok hlast hup] at h ⊢
  obtain ⟨above, habove, hk, hlong, hplace⟩ := h
  have hk' := hfolder above hk
  exact ⟨above, locate_persists hhere hfolder habove (by simp [hk']), hk', hlong, hplace⟩

/-- A path leads to the place that can be written under it once something is there. -/
theorem locate_of_slot {d : Disk} {p : Path} {name : String}
    (hlast : p.names.getLast? = some name) (hup : name ≠ "..") {place : List String}
    (h : d.slot p = .ok place) (hend : d.kindAt place ≠ none) : d.locate p = .ok place := by
  obtain ⟨above, habove, hk, hlong, rfl⟩ := (slot_eq_ok hlast hup).1 h
  unfold locate at habove ⊢
  rw [names_eq_append hlast, List.foldlM_append, except_bind_eq_ok]
  refine ⟨above, habove, ?_⟩
  rw [List.foldlM_cons, except_bind_eq_ok]
  exact ⟨above ++ [name], enter_eq_ok.2 ⟨hk, .inr ⟨hup, hlong, hend, rfl⟩⟩, rfl⟩

theorem readBytes_eq_ok {d : Disk} {p : Path} {bytes : ByteArray} :
    d.readBytes p = .ok bytes ↔
      ∃ place, d.locate p = .ok place ∧ d.kindAt place = some (some bytes) := by
  unfold readBytes find
  cases hl : d.locate p with
  | error why => simp [bind, Except.bind]
  | ok place =>
    rcases hn : d.node? place with _ | ⟨old, t⟩ | ⟨t, entries⟩ <;>
      simp [bind, Except.bind, hn, kindAt, Node.bytes?]

end Disk

end AssetBundler
