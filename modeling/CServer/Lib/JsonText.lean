import CServer.Lib.FlatJson
import CServer.Lib.Strtol

/-!
# JSON texts

The grammar of RFC 8259 over bytes, for texts without white space between the tokens and for
integer numbers.  The strings are those of `FlatJson`, in their strict form.

* `Json`                a value, its strings decoded;
* `JsonInt`             the text of an integer;
* `Json.Text`           the text of a value;
* `joinRows`            texts joined by commas, and `Json.Text.array` the array of them;
* `jsonInt_decimal`     what `%ld` prints is an integer.
-/

namespace CServer

inductive Json where
  | num (n : Int)
  | str (s : Bytes)
  | arr (items : List Json)
  | obj (members : List (Bytes × Json))

/-- an optional minus and digits, the first of which is no zero unless it is the only one -/
structure JsonInt (text : Bytes) (n : Int) (sign ds : Bytes) : Prop where
  text : text = sign ++ ds
  value : n = signedValue sign ds
  sign : sign = [] ∨ sign = [45]
  nonempty : ds ≠ []
  digits : ∀ c ∈ ds, isDigit c = true
  lead : ds.head? = some 48 → ds = [48]

def lbracket : Byte := 91
def rbracket : Byte := 93

mutual

inductive Json.Text : Bytes → Json → Prop
  | num {t : Bytes} {n : Int} {sign ds : Bytes} (h : JsonInt t n sign ds) : Json.Text t (.num n)
  | str (s : FlatJson.Str) (h : s.Strict) : Json.Text s.text (.str s.value)
  | arrEmpty : Json.Text [lbracket, rbracket] (.arr [])
  | arr {t : Bytes} {items : List Json} (h : Json.Items t items) :
      Json.Text (lbracket :: (t ++ [rbracket])) (.arr items)
  | objEmpty : Json.Text [lbrace, rbrace] (.obj [])
  | obj {t : Bytes} {members : List (Bytes × Json)} (h : Json.Members t members) :
      Json.Text (lbrace :: (t ++ [rbrace])) (.obj members)

inductive Json.Items : Bytes → List Json → Prop
  | last {t : Bytes} {v : Json} (h : Json.Text t v) : Json.Items t [v]
  | more {t ts : Bytes} {v : Json} {vs : List Json} (h : Json.Text t v) (hs : Json.Items ts vs) :
      Json.Items (t ++ comma :: ts) (v :: vs)

inductive Json.Members : Bytes → List (Bytes × Json) → Prop
  | last {t : Bytes} {v : Json} (s : FlatJson.Str) (hs : s.Strict) (h : Json.Text t v) :
      Json.Members (s.text ++ colon :: t) [(s.value, v)]
  | more {t ts : Bytes} {v : Json} {ms : List (Bytes × Json)} (s : FlatJson.Str) (hs : s.Strict)
      (h : Json.Text t v) (hms : Json.Members ts ms) :
      Json.Members (s.text ++ colon :: (t ++ comma :: ts)) ((s.value, v) :: ms)

end

/-! ## rows joined by commas -/

/-- the texts of the rows, each behind a comma except for the first one -/
def joinRows {α : Type} (render : α → Bytes) (first : Bool) : List α → Bytes
  | [] => []
  | row :: rows => (if first then [] else [comma]) ++ render row ++ joinRows render false rows

theorem joinRows_length_le {α : Type} (render : α → Bytes) (first : Bool) (rows : List α) (n : Nat)
    (h : ∀ row ∈ rows, (render row).length ≤ n) :
    (joinRows render first rows).length ≤ rows.length * (n + 1) := by
  induction rows generalizing first with
  | nil => exact Nat.zero_le _
  | cons row rows ih =>
    have hrow := h row List.mem_cons_self
    have hrows := ih false fun r hr => h r (List.mem_cons_of_mem _ hr)
    have hcomma : (if first then [] else [comma] : Bytes).length ≤ 1 := by
      cases first
      · exact le_refl 1
      · exact Nat.zero_le 1
    rw [joinRows, List.length_append, List.length_append, List.length_cons, Nat.succ_mul]
    omega

section
variable {α : Type} (render : α → Bytes) (value : α → Json)

theorem Json.Items.rows (row : α) (rows : List α)
    (h : ∀ r ∈ row :: rows, Json.Text (render r) (value r)) :
    Json.Items (joinRows render true (row :: rows)) ((row :: rows).map value) := by
  induction rows generalizing row with
  | nil =>
    have hlast := Json.Items.last (h row List.mem_cons_self)
    simpa [joinRows] using hlast
  | cons next rows ih =>
    have hmore := Json.Items.more (h row List.mem_cons_self)
      (ih next fun r hr => h r (List.mem_cons_of_mem _ hr))
    have htext : joinRows render true (row :: next :: rows) =
        render row ++ comma :: joinRows render true (next :: rows) := by
      simp [joinRows]
    rw [htext]
    exact hmore

/-- **The rows between brackets are the array of their values.** -/
theorem Json.Text.array (rows : List α) (h : ∀ r ∈ rows, Json.Text (render r) (value r)) :
    Json.Text (lbracket :: (joinRows render true rows ++ [rbracket])) (.arr (rows.map value)) := by
  cases rows with
  | nil => exact Json.Text.arrEmpty
  | cons row rows => exact Json.Text.arr (Json.Items.rows render value row rows h)

end

/-! ## integers -/

theorem digitsValue_append (ds : Bytes) (c : Byte) :
    digitsValue (ds ++ [c]) = 10 * digitsValue ds + (c.toNat - 48) := by
  unfold digitsValue
  rw [List.foldl_append]
  rfl

/-- the digit of a number below ten -/
theorem digit_toNat (n : Nat) (h : n < 10) : (UInt8.ofNat (48 + n)).toNat = 48 + n := by
  rw [UInt8.toNat_ofNat']
  omega

theorem digit_isDigit (n : Nat) (h : n < 10) : isDigit (UInt8.ofNat (48 + n)) = true := by
  have hn := digit_toNat n h
  unfold isDigit
  simp only [Bool.and_eq_true, decide_eq_true_eq, UInt8.le_iff_toNat_le]
  have e1 : (48 : Byte).toNat = 48 := rfl
  have e2 : (57 : Byte).toNat = 57 := rfl
  omega

/-- What `%lu` prints is the digits of the number, without a leading zero. -/
theorem digits_spec (n : Nat) :
    (∀ c ∈ digits n, isDigit c = true) ∧ digitsValue (digits n) = n ∧ digits n ≠ [] ∧
      ((digits n).head? = some 48 → n = 0) := by
  induction n using Nat.strong_induction_on with
  | _ n ih =>
    rw [digits]
    by_cases hn : n < 10
    · rw [if_pos hn]
      refine ⟨fun c hc => ?_, ?_, List.cons_ne_nil _ _, fun h => ?_⟩
      · rw [List.mem_singleton.mp hc]
        exact digit_isDigit n hn
      · show 10 * 0 + ((UInt8.ofNat (48 + n)).toNat - 48) = n
        rw [digit_toNat n hn]
        omega
      · have hzero := congrArg UInt8.toNat (Option.some.inj h)
        rw [digit_toNat n hn] at hzero
        have e : (48 : Byte).toNat = 48 := rfl
        omega
    · rw [if_neg hn]
      obtain ⟨hd, hv, hne, hz⟩ := ih (n / 10) (by omega)
      refine ⟨fun c hc => ?_, ?_, fun h => hne (List.append_eq_nil_iff.mp h).1, fun h => ?_⟩
      · rcases List.mem_append.mp hc with hc | hc
        · exact hd c hc
        · rw [List.mem_singleton.mp hc]
          exact digit_isDigit _ (Nat.mod_lt _ (by decide))
      · rw [digitsValue_append, hv, digit_toNat _ (Nat.mod_lt _ (by decide))]
        omega
      · rw [List.head?_append_of_ne_nil _ hne] at h
        have := hz h
        omega

theorem jsonInt_decimal (n : Int) : ∃ sign ds, JsonInt (decimal n) n sign ds := by
  cases n with
  | ofNat m =>
    obtain ⟨hd, hv, hne, hz⟩ := digits_spec m
    refine ⟨[], digits m, rfl, ?_, .inl rfl, hne, hd, fun h => ?_⟩
    · rw [show signedValue [] (digits m) = digitsValue (digits m) from if_neg (by decide), hv]
      rfl
    · rw [hz h, digits, if_pos (by decide)]
      rfl
  | negSucc m =>
    obtain ⟨hd, hv, hne, hz⟩ := digits_spec (m + 1)
    refine ⟨[45], digits (m + 1), rfl, ?_, .inr rfl, hne, hd, fun h => absurd (hz h) (by omega)⟩
    rw [show signedValue [45] (digits (m + 1)) = -(digitsValue (digits (m + 1)) : Int) from
      if_pos rfl, hv]
    rfl

/-- an integer as `%ld` prints it -/
theorem Json.Text.decimal (n : Int) : Json.Text (CServer.decimal n) (.num n) := by
  obtain ⟨sign, ds, h⟩ := jsonInt_decimal n
  exact Json.Text.num h

end CServer
