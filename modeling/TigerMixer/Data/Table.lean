import Mathlib.Data.Finset.Card

/-!
# Tables with a linear search

A table is a list of entries that is searched from the front. A row updates the first entry with its
key or becomes an entry of its own, in a bounded table only while there is room. There is one entry
for each key, in the order in which the keys appeared.
-/

namespace TigerMixer.Table

open List hiding beq_eq_decide

universe u v w x

variable {Entry : Type u} {Row : Type v} {Key : Type w} {View : Type x} [DecidableEq Key]

section Operations

variable (key : Entry → Key)

def upsert (wanted : Key) (update : Entry → Entry) (fresh : Entry) : List Entry → List Entry
  | [] => [fresh]
  | entry :: rest =>
    if key entry = wanted then update entry :: rest
    else entry :: upsert wanted update fresh rest

def upsertWithin (wanted : Key) (update : Entry → Entry) (fresh : Entry) :
    ℕ → List Entry → List Entry
  | 0, [] => []
  | _ + 1, [] => [fresh]
  | capacity, entry :: rest =>
    if key entry = wanted then update entry :: rest
    else entry :: upsertWithin wanted update fresh (capacity - 1) rest

variable (rowKey : Row → Key) (update : Row → Entry → Entry) (fresh : Row → Entry)

def table (rows : List Row) : List Entry :=
  rows.foldl (fun entries row => upsert key (rowKey row) (update row) (fresh row) entries) []

def tableWithin (capacity : ℕ) (rows : List Row) : List Entry :=
  rows.foldl (fun entries row =>
    upsertWithin key (rowKey row) (update row) (fresh row) capacity entries) []

/-- The positions of the entries to which rows go, one after the other, in a table with these
entries. -/
def positionsFrom : List Entry → List Row → List ℕ
  | _, [] => []
  | entries, row :: rows =>
    entries.findIdx (fun entry => key entry = rowKey row) ::
      positionsFrom (upsert key (rowKey row) (update row) (fresh row) entries) rows

end Operations

variable {key : Entry → Key} {rowKey : Row → Key} {update : Row → Entry → Entry}
  {fresh : Row → Entry}

theorem table_map {Source : Type x} (read : Source → Row) (sources : List Source) :
    table key rowKey update fresh (sources.map read) =
      table key (fun source => rowKey (read source)) (fun source => update (read source))
        (fun source => fresh (read source)) sources := by
  rw [table, foldl_map, table]

theorem take_upsert (wanted : Key) (change : Entry → Entry) (added : Entry) (capacity : ℕ)
    (entries : List Entry) :
    (upsert key wanted change added entries).take capacity =
      upsertWithin key wanted change added capacity (entries.take capacity) := by
  induction entries generalizing capacity with
  | nil => cases capacity <;> simp [upsert, upsertWithin]
  | cons entry rest ih =>
    cases capacity with
    | zero => simp [upsertWithin]
    | succ capacity =>
      rw [take_succ_cons, upsert, upsertWithin]
      split_ifs
      · rw [take_succ_cons]
      · rw [take_succ_cons, ih, Nat.add_sub_cancel]

theorem tableWithin_eq (capacity : ℕ) (rows : List Row) :
    tableWithin key rowKey update fresh capacity rows =
      (table key rowKey update fresh rows).take capacity := by
  induction rows using List.reverseRecOn with
  | nil => simp [tableWithin, table]
  | append_singleton rows row ih =>
    rw [tableWithin, table, foldl_append, foldl_append]
    change upsertWithin key _ _ _ capacity (tableWithin key rowKey update fresh capacity rows) =
      (upsert key _ _ _ (table key rowKey update fresh rows)).take capacity
    rw [ih, take_upsert]

theorem foldl_upsert_cons (kept : ∀ row entry, key (update row entry) = key entry)
    (rows : List Row) (entry : Entry) (entries : List Entry) :
    rows.foldl (fun entries row => upsert key (rowKey row) (update row) (fresh row) entries)
        (entry :: entries) =
      (rows.filter fun row => rowKey row = key entry).foldl (fun entry row => update row entry)
          entry ::
        (rows.filter fun row => rowKey row ≠ key entry).foldl
          (fun entries row => upsert key (rowKey row) (update row) (fresh row) entries)
          entries := by
  induction rows generalizing entry entries with
  | nil => rfl
  | cons row rows ih =>
    by_cases here : key entry = rowKey row
    · rw [foldl_cons, upsert, if_pos here, ih, kept]
      simp [here]
    · rw [foldl_cons, upsert, if_neg here, ih]
      simp [Ne.symm here]

theorem table_cons (kept : ∀ row entry, key (update row entry) = key entry) {row : Row}
    (keyed : key (fresh row) = rowKey row) (rows : List Row) :
    table key rowKey update fresh (row :: rows) =
      (rows.filter fun other => rowKey other = rowKey row).foldl
          (fun entry row => update row entry) (fresh row) ::
        table key rowKey update fresh (rows.filter fun other => rowKey other ≠ rowKey row) := by
  rw [table, foldl_cons, upsert, foldl_upsert_cons kept, keyed, table]

theorem upsert_of_absent {wanted : Key} {change : Entry → Entry} {added : Entry}
    {entries : List Entry} (absent : ∀ entry ∈ entries, key entry ≠ wanted) :
    upsert key wanted change added entries = entries ++ [added] := by
  induction entries with
  | nil => rfl
  | cons entry entries ih =>
    rw [forall_mem_cons] at absent
    rw [upsert, if_neg absent.1, ih absent.2, cons_append]

/-- Where no row has the key of an entry, every row becomes an entry. -/
theorem table_of_apart {rows : List Row}
    (apart : ∀ row ∈ rows, ∀ other ∈ rows, key (fresh other) ≠ rowKey row) :
    table key rowKey update fresh rows = rows.map fresh := by
  induction rows using List.reverseRecOn with
  | nil => rfl
  | append_singleton rows row ih =>
    rw [table, foldl_append, foldl_cons, foldl_nil, map_append, map_singleton]
    change upsert key _ _ _ (table key rowKey update fresh rows) = _
    rw [ih fun row member other among => apart row (by simp [member]) other (by simp [among])]
    apply upsert_of_absent
    simp only [forall_mem_map]
    intro other among
    exact apart row (by simp) other (by simp [among])

variable [BEq Key] [LawfulBEq Key]

theorem map_table {view : Entry → View} {summary : Key → List Row → View}
    (kept : ∀ row entry, key (update row entry) = key entry) {rows : List Row}
    (keyed : ∀ row ∈ rows, key (fresh row) = rowKey row)
    (summarised : ∀ first rest, (∀ row ∈ first :: rest, row ∈ rows ∧ rowKey row = rowKey first) →
      view (rest.foldl (fun entry row => update row entry) (fresh first)) =
        summary (rowKey first) (first :: rest)) :
    (table key rowKey update fresh rows).map view =
      (rows.map rowKey).eraseDups.map fun found =>
        summary found (rows.filter fun row => rowKey row = found) := by
  -- The rows with the key of the first one are taken together, and the induction is over the rest.
  induction count : rows.length using Nat.strong_induction_on generalizing rows with
  | _ count ih =>
    subst count
    cases rows with
    | nil => simp [table]
    | cons first rows =>
      have shorter : (rows.filter fun row => rowKey row ≠ rowKey first).length <
          (first :: rows).length :=
        Nat.lt_succ_of_le (length_filter_le ..)
      have inRows {row : Row}
          (member : row ∈ rows.filter fun row => rowKey row ≠ rowKey first) :
          row ∈ first :: rows :=
        mem_cons_of_mem _ (mem_of_mem_filter member)
      have rest := ih _ shorter (fun row member => keyed row (inRows member))
        (fun head tail same => summarised head tail fun row member =>
          ⟨inRows (same row member).1, (same row member).2⟩) rfl
      have otherKeys : (rows.map rowKey).filter (fun found => !found == rowKey first) =
          (rows.filter fun row => rowKey row ≠ rowKey first).map rowKey := by
        rw [filter_map]
        congr 1
        apply filter_congr
        intro row _
        simp [beq_eq_decide]
      rw [table_cons kept (keyed first mem_cons_self), map_cons, rest, map_cons,
        eraseDups_cons, map_cons, otherKeys, filter_cons_of_pos (by simp)]
      congr 1
      · apply summarised
        intro row member
        rcases mem_cons.mp member with rfl | member
        · exact ⟨mem_cons_self, rfl⟩
        · exact ⟨mem_cons_of_mem _ (mem_of_mem_filter member), by simpa using of_mem_filter member⟩
      · apply map_congr_left
        intro found isKey
        rw [mem_eraseDups, mem_map] at isKey
        rcases isKey with ⟨row, member, rfl⟩
        have other : rowKey row ≠ rowKey first := by simpa using of_mem_filter member
        rw [filter_filter, filter_cons_of_neg (by simpa using other.symm)]
        congr 1
        apply filter_congr
        intro candidate _
        by_cases same : rowKey candidate = rowKey row
        · simp [same, other]
        · simp [same]

theorem map_key_table (kept : ∀ row entry, key (update row entry) = key entry) {rows : List Row}
    (keyed : ∀ row ∈ rows, key (fresh row) = rowKey row) :
    (table key rowKey update fresh rows).map key = (rows.map rowKey).eraseDups := by
  have firstKey (first : Row) (rest : List Row) :
      key (rest.foldl (fun entry row => update row entry) (fresh first)) = key (fresh first) := by
    induction rest using List.reverseRecOn with
    | nil => rfl
    | append_singleton rest row ih =>
      rw [foldl_append, foldl_cons, foldl_nil, kept, ih]
  have entries := @map_table Entry Row Key Key _ key rowKey update fresh _ _ key
    (fun found _ => found) kept rows keyed fun first rest same =>
      (firstKey first rest).trans (keyed first (same first mem_cons_self).1)
  rwa [map_id'] at entries

/-! ### Positions -/

section Positions

variable {entries : List Entry} {rows : List Row}

theorem findIdx_key_eq (wanted : Key) (entries : List Entry) :
    entries.findIdx (fun entry => key entry = wanted) = (entries.map key).idxOf wanted := by
  rw [List.idxOf, findIdx_map]
  congr 1
  funext entry
  rw [Function.comp_apply, beq_eq_decide]

theorem map_key_upsert {wanted : Key} {change : Entry → Entry} {added : Entry}
    (kept : ∀ entry, key (change entry) = key entry) (keyed : key added = wanted)
    (entries : List Entry) :
    (upsert key wanted change added entries).map key =
      if wanted ∈ entries.map key then entries.map key else entries.map key ++ [wanted] := by
  induction entries with
  | nil => simp [upsert, keyed]
  | cons entry entries ih =>
    by_cases here : key entry = wanted
    · simp [upsert, here, kept]
    · rw [upsert, if_neg here, map_cons, ih, map_cons]
      by_cases later : wanted ∈ entries.map key
      · rw [if_pos later, if_pos (mem_cons_of_mem _ later)]
      · rw [if_neg later, if_neg (by simpa [Ne.symm here] using later), cons_append]

variable (kept : ∀ row entry, key (update row entry) = key entry)
  (keyed : ∀ row ∈ rows, key (fresh row) = rowKey row)

include kept keyed

theorem map_key_prefix_foldl :
    entries.map key <+: (rows.foldl (fun entries row =>
      upsert key (rowKey row) (update row) (fresh row) entries) entries).map key := by
  induction rows generalizing entries with
  | nil => exact prefix_rfl
  | cons row rows ih =>
    rw [forall_mem_cons] at keyed
    refine List.IsPrefix.trans ?_ (ih keyed.2)
    rw [map_key_upsert (kept row) keyed.1]
    split_ifs
    · exact prefix_rfl
    · exact prefix_append _ _

theorem positionsFrom_eq :
    positionsFrom key rowKey update fresh entries rows =
      rows.map fun row => ((rows.foldl (fun entries row =>
        upsert key (rowKey row) (update row) (fresh row) entries) entries).map key).idxOf
          (rowKey row) := by
  induction rows generalizing entries with
  | nil => rfl
  | cons row rows ih =>
    rw [forall_mem_cons] at keyed
    rw [positionsFrom, ih keyed.2, map_cons, foldl_cons]
    rcases map_key_prefix_foldl kept keyed.2 with ⟨added, split⟩
    rw [← split, map_key_upsert (kept row) keyed.1, findIdx_key_eq]
    split_ifs with there
    · rw [idxOf_append_of_mem there]
    · rw [append_assoc, idxOf_append_of_notMem there, idxOf_eq_length there]
      simp

end Positions

/-! ### Distinct values -/

section Distinct

variable {α : Type u} [BEq α] [LawfulBEq α]

theorem nodup_eraseDups (values : List α) : values.eraseDups.Nodup := by
  induction count : values.length using Nat.strong_induction_on generalizing values with
  | _ count ih =>
    subst count
    cases values with
    | nil => simp
    | cons value values =>
      rw [eraseDups_cons, nodup_cons, mem_eraseDups]
      refine ⟨by simp, ih _ (Nat.lt_succ_of_le (length_filter_le ..)) _ rfl⟩

theorem countP_eraseDups [DecidableEq α] (holds : α → Prop) [DecidablePred holds]
    (values : List α) :
    values.eraseDups.countP (fun value => holds value) = (values.toFinset.filter holds).card := by
  have distinct := (nodup_eraseDups values).filter fun value => decide (holds value)
  rw [countP_eq_length_filter, ← toFinset_card_of_nodup distinct]
  congr 1
  ext value
  simp

theorem length_eraseDups [DecidableEq α] (values : List α) :
    values.eraseDups.length = values.toFinset.card := by
  have count := countP_eraseDups (fun _ => True) values
  simpa using count

end Distinct

end TigerMixer.Table
