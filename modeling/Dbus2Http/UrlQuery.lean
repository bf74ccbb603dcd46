import Dbus2Http.JsonGrammar

set_option autoImplicit false

/-! The query of an address as pairs of names and values, and the pairs read from it. -/

namespace UrlQuery

/-- Plus signs stand for spaces, and a percent sign with two hexadecimal digits for a byte. -/
def decode : List Char → List Char
  | [] => []
  | '+' :: rest => ' ' :: decode rest
  | '%' :: high :: low :: rest =>
      match JsonGrammar.hexDigit? high, JsonGrammar.hexDigit? low with
      | some h, some l => Char.ofNat (16 * h + l) :: decode rest
      | _, _ => '%' :: decode (high :: low :: rest)
  | c :: rest => c :: decode rest

/-- A name up to the first equals sign and the value behind it. -/
def readPair (text : List Char) : List Char × List Char :=
  (decode (text.takeWhile (· ≠ '=')), decode ((text.dropWhile (· ≠ '=')).drop 1))

def readPairs (query : List Char) : List (List Char × List Char) :=
  ((query.splitOn '&').filter (· ≠ [])).map readPair

/-- What stands between the question mark of an address and its fragment. -/
def search (address : List Char) : List Char :=
  ((address.dropWhile (· ≠ '?')).drop 1).takeWhile (· ≠ '#')

/-- The first value of this name in the query of an address. -/
def get (address name : List Char) : Option (List Char) := (readPairs (search address)).lookup name

/-! ### Addresses that are written plainly -/

/-- A text that stands for itself in a query. -/
def Plain (text : List Char) : Prop := ∀ c ∈ text, c ∉ "+%&=#?".toList

instance (text : List Char) : Decidable (Plain text) := List.decidableBAll _ text

def write (pair : List Char × List Char) : List Char := pair.1 ++ '=' :: pair.2

def address (path : List Char) (pairs : List (List Char × List Char)) : List Char :=
  path ++ '?' :: ['&'].intercalate (pairs.map write)

theorem decode_plain {text : List Char} (plain : Plain text) : decode text = text := by
  induction text with
  | nil => rfl
  | cons c rest ih =>
      obtain ⟨first, others⟩ := List.forall_mem_cons.mp plain
      have plus : c ≠ '+' := fun same => first (same ▸ by decide)
      have percent : c ≠ '%' := fun same => first (same ▸ by decide)
      rw [decode.eq_def]
      split
      · rename_i same
        cases same
      · rename_i same
        exact absurd (List.cons.inj same).1 plus
      · rename_i same
        exact absurd (List.cons.inj same).1 percent
      · rename_i same
        obtain ⟨rfl, rfl⟩ := List.cons.inj same
        rw [ih others]

theorem Plain.not_mem {text : List Char} (plain : Plain text) {c : Char} (special : c ∈ "+%&=#?".toList) :
    c ∉ text :=
  fun inside => plain c inside special

theorem readPair_write {pair : List Char × List Char} (key : Plain pair.1) (value : Plain pair.2) :
    readPair (write pair) = pair := by
  have equals : '=' ∉ pair.1 := key.not_mem (by decide)
  have before : ∀ c ∈ pair.1, decide (c ≠ '=') = true :=
    fun c inside => decide_eq_true fun same => equals (same ▸ inside)
  rw [readPair, write, List.takeWhile_append_of_pos before, List.dropWhile_append_of_pos before]
  simp [decode_plain key, decode_plain value]

theorem Plain.write {pair : List Char × List Char} (key : Plain pair.1) (value : Plain pair.2) {c : Char}
    (special : c ∈ "&#".toList) : c ∉ write pair := by
  have other : c ≠ '=' ∧ c ∈ "+%&=#?".toList := by
    rcases List.mem_pair.mp special with rfl | rfl <;> decide
  intro inside
  rcases List.mem_append.mp inside with here | there
  · exact key.not_mem other.2 here
  · rcases List.mem_cons.mp there with same | later
    · exact other.1 same
    · exact value.not_mem other.2 later

theorem write_ne_nil (pair : List Char × List Char) : write pair ≠ [] := by
  simp [write]

theorem readPairs_write {pairs : List (List Char × List Char)} (some : pairs ≠ [])
    (plain : ∀ pair ∈ pairs, Plain pair.1 ∧ Plain pair.2) :
    readPairs (['&'].intercalate (pairs.map write)) = pairs := by
  rw [readPairs, List.splitOn_intercalate]
  · have all : (pairs.map write).filter (· ≠ []) = pairs.map write := by
      rw [List.filter_eq_self]
      intro text inside
      obtain ⟨pair, -, rfl⟩ := List.mem_map.mp inside
      exact decide_eq_true (write_ne_nil pair)
    rw [all, List.map_map]
    refine (List.map_congr_left fun pair inside => ?_).trans (List.map_id _)
    exact readPair_write (plain pair inside).1 (plain pair inside).2
  · intro text inside
    obtain ⟨pair, member, rfl⟩ := List.mem_map.mp inside
    exact (plain pair member).1.write (plain pair member).2 (by decide)
  · simpa using some

theorem not_mem_intercalate {c : Char} {between : List Char} (apart : c ∉ between)
    {texts : List (List Char)} (each : ∀ text ∈ texts, c ∉ text) : c ∉ between.intercalate texts := by
  induction texts with
  | nil => simp
  | cons first rest ih =>
      obtain ⟨here, others⟩ := List.forall_mem_cons.mp each
      cases rest with
      | nil => rwa [List.intercalate_singleton]
      | cons second rest =>
          rw [List.intercalate_cons_cons, List.mem_append, List.mem_append]
          rintro ((inFirst | inBetween) | later)
          · exact here inFirst
          · exact apart inBetween
          · exact ih others later

theorem not_mem_address {c : Char} (punctuation : c ∉ ['?', '&', '=']) {path : List Char} (start : c ∉ path)
    {pairs : List (List Char × List Char)} (each : ∀ pair ∈ pairs, c ∉ pair.1 ∧ c ∉ pair.2) :
    c ∉ address path pairs := by
  simp only [List.mem_cons, List.not_mem_nil, or_false, not_or] at punctuation
  obtain ⟨question, ampersand, equals⟩ := punctuation
  have query : c ∉ ['&'].intercalate (pairs.map write) := by
    refine not_mem_intercalate (by simpa using ampersand) fun text inside => ?_
    obtain ⟨pair, member, rfl⟩ := List.mem_map.mp inside
    rw [write, List.mem_append, List.mem_cons, not_or, not_or]
    exact ⟨(each pair member).1, equals, (each pair member).2⟩
  rw [address, List.mem_append, List.mem_cons, not_or, not_or]
  exact ⟨start, question, query⟩

/-- What is plainly written into an address is found in it. -/
theorem readPairs_address {path : List Char} (start : '?' ∉ path)
    {pairs : List (List Char × List Char)} (some : pairs ≠ [])
    (plain : ∀ pair ∈ pairs, Plain pair.1 ∧ Plain pair.2) :
    readPairs (search (address path pairs)) = pairs := by
  have before : ∀ c ∈ path, decide (c ≠ '?') = true :=
    fun c inside => decide_eq_true fun same => start (same ▸ inside)
  have query : (['&'].intercalate (pairs.map write)).takeWhile (· ≠ '#') =
      ['&'].intercalate (pairs.map write) := by
    rw [List.takeWhile_eq_self_iff]
    intro c inside
    refine decide_eq_true ?_
    rintro rfl
    refine not_mem_intercalate (by decide) (fun text member => ?_) inside
    obtain ⟨pair, there, rfl⟩ := List.mem_map.mp member
    exact (plain pair there).1.write (plain pair there).2 (by decide)
  have rest : search (address path pairs) = ['&'].intercalate (pairs.map write) := by
    rw [search, address, List.dropWhile_append_of_pos before]
    simpa using query
  rw [rest, readPairs_write some plain]

end UrlQuery
