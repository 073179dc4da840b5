import CServer.Lib.Table
import CServer.Lib.CString

/-!
# The two SQLite tables

The `kv` and `notes` tables of `store_open`, with the statements that `store_sqlite.c` runs on
them.  A 64-bit column is a `Long`.  The notes table carries what `AUTOINCREMENT` keeps: the
largest id ever used, below which all ids lie.

A statement can fail: `SqlFault` says where.  Under `step n` the call of `sqlite3_step` behind the
`n`-th row fails, or that row's columns cannot be read; the statement then changes nothing.
-/

namespace CServer

inductive SqlFault where
  | none
  | prepare
  | step (rows : Nat)
  deriving DecidableEq

/-! ## `kv` -/

structure KvRow where
  key : CStr
  value : CStr
  updatedAt : Long
  deriving DecidableEq

abbrev KvTable := Table KvRow.key

/-- `ORDER BY key`: the bytes compared as unsigned numbers, then the lengths -/
def KvRow.rank (r : KvRow) : List Nat := r.key.bytes.map UInt8.toNat

theorem KvRow.rank_inj (r s : KvRow) (h : r.rank = s.rank) : r.key = s.key := by
  apply CStr.ext'
  have hinj : Function.Injective UInt8.toNat := fun a b hab => UInt8.toNat_inj.mp hab
  exact hinj.list_map h

/-! ## `notes` -/

structure NoteRow where
  id : Long
  title : CStr
  body : CStr
  createdAt : Long
  updatedAt : Long
  deriving DecidableEq

/-- the row with the columns that an UPDATE sets -/
def NoteRow.edit (title body : CStr) (now : Long) (row : NoteRow) : NoteRow :=
  { row with title := title, body := body, updatedAt := now }

theorem NoteRow.edit_id (title body : CStr) (now : Long) (row : NoteRow) :
    (NoteRow.edit title body now row).id = row.id := rfl

structure NoteTable where
  table : Table NoteRow.id
  seq : Nat
  seqHi : (seq : Int) < 2 ^ 63
  bound : ∀ r ∈ table.rows, r.id.val ≤ seq

namespace NoteTable

theorem ext' {t u : NoteTable} (h1 : t.table = u.table) (h2 : t.seq = u.seq) : t = u := by
  cases t
  cases u
  cases h1
  cases h2
  rfl

def empty : NoteTable where
  table := Table.empty NoteRow.id
  seq := 0
  seqHi := by decide
  bound := fun r hr => absurd hr (by simp)

/-- the largest id is not used up -/
def HasNext (t : NoteTable) : Prop := (t.seq : Int) + 1 < 2 ^ 63

instance (t : NoteTable) : Decidable t.HasNext := Int.decLt _ _

/-- the id that the next insert gets, while there is one -/
def nextId (t : NoteTable) (h : t.HasNext) : Long :=
  ⟨t.seq + 1, by omega, h⟩

theorem nextId_fresh (t : NoteTable) (h : t.HasNext) :
    ∀ r ∈ t.table.rows, r.id ≠ t.nextId h := by
  intro r hr he
  have hb := t.bound r hr
  rw [he] at hb
  have hv : (t.nextId h).val = t.seq + 1 := rfl
  omega

/-- `INSERT INTO notes(title,body,created_at,updated_at)` -/
def insert (t : NoteTable) (h : t.HasNext) (title body : CStr) (now : Long) :
    NoteTable where
  table := t.table.put ⟨t.nextId h, title, body, now, now⟩
  seq := t.seq + 1
  seqHi := h
  bound := by
    intro r hr
    rcases (Table.mem_put _ _ _).mp hr with rfl | ⟨hr, _⟩
    · exact le_refl _
    · have hb := t.bound r hr
      push_cast
      omega

/-- `UPDATE notes SET title=?,body=?,updated_at=? WHERE id=?` -/
def update (t : NoteTable) (id : Long) (title body : CStr) (now : Long) : NoteTable where
  table := t.table.modify id (NoteRow.edit title body now) (NoteRow.edit_id title body now)
  seq := t.seq
  seqHi := t.seqHi
  bound := by
    intro r hr
    rcases Table.mem_modify _ _ _ _ r hr with hr | ⟨s, hs, _, rfl⟩
    · exact t.bound r hr
    · exact t.bound s hs

/-- `DELETE FROM notes WHERE id=?` -/
def delete (t : NoteTable) (id : Long) : NoteTable where
  table := t.table.erase id
  seq := t.seq
  seqHi := t.seqHi
  bound := fun r hr => t.bound r ((Table.mem_erase _ _ _).mp hr).1

theorem delete_eq_self (t : NoteTable) (id : Long) (h : t.table.get id = none) :
    t.delete id = t := by
  refine ext' (Table.ext' ?_) rfl
  show t.table.rows.filter _ = t.table.rows
  rw [List.filter_eq_self]
  intro r hr
  simpa using Table.get_eq_none.mp h r hr

theorem mem_update (t : NoteTable) (id : Long) (title body : CStr) (now : Long) (r : NoteRow)
    (hr : r ∈ (t.update id title body now).table.rows) :
    r ∈ t.table.rows ∨ ∃ s, t.table.get id = some s ∧ r = s.edit title body now := by
  rcases Table.mem_modify t.table id (NoteRow.edit title body now)
      (NoteRow.edit_id title body now) r hr with hr | ⟨s, hs, hk, he⟩
  · exact .inl hr
  · exact .inr ⟨s, (Table.get_iff _ _ _).mpr ⟨hs, hk⟩, he⟩

theorem update_eq_self (t : NoteTable) (id : Long) (title body : CStr) (now : Long) :
    t.update id title body now = t ↔ ∀ r ∈ t.table.rows, r.id = id → r.edit title body now = r := by
  rw [← Table.modify_eq_self t.table id (NoteRow.edit title body now)
    (NoteRow.edit_id title body now)]
  constructor
  · intro h
    exact congrArg NoteTable.table h
  · intro h
    exact ext' h rfl

theorem update_absent (t : NoteTable) (id : Long) (title body : CStr) (now : Long)
    (h : t.table.get id = none) : t.update id title body now = t := by
  rw [update_eq_self]
  intro r hr hk
  exact absurd hk (Table.get_eq_none.mp h r hr)

theorem update_eq_iff (t : NoteTable) (id : Long) (title body : CStr) (now : Long) (row : NoteRow)
    (h : t.table.get id = some row) :
    t.update id title body now = t ↔ row.edit title body now = row := by
  rw [update_eq_self]
  obtain ⟨hmem, hid⟩ := Table.get_eq_some h
  constructor
  · intro hall
    exact hall row hmem hid
  · intro he r hr hk
    have hsame : t.table.get id = some r := (Table.get_iff _ _ _).mpr ⟨hr, hk⟩
    rw [h] at hsame
    cases hsame
    exact he

end NoteTable

theorem KvTable.erase_eq_self (t : KvTable) (key : CStr) (h : t.get key = none) :
    t.erase key = t := by
  apply Table.ext'
  show t.rows.filter _ = t.rows
  rw [List.filter_eq_self]
  intro r hr
  simpa using Table.get_eq_none.mp h r hr

/-- The database. -/
structure Store where
  kv : KvTable
  notes : NoteTable

def Store.empty : Store := ⟨Table.empty KvRow.key, NoteTable.empty⟩

end CServer
