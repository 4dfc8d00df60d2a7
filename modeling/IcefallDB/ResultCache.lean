import IcefallDB.Lib.Buffers
import IcefallDB.Lib.Groups
import IcefallDB.Lib.JsonText
import IcefallDB.Lib.Run
import Mathlib.Data.List.AList
import Mathlib.Data.List.Sort
import Mathlib.Data.String.Basic

/-!
# The result cache

Results of queries are kept in files of a directory.  A file's name is a hash of the query's text and
of the snapshots of its tables, which are written one after another without their lengths.  Storing a
result evicts the files that were used least recently, once all of them exceed the budget.
-/

namespace IcefallDB

namespace ResultCache

/-! ## Keys -/

/-- A query and its tables, with the snapshots of these. -/
structure Request where
  sql : String
  tables : List String
  snapshots : List Nat
  deriving DecidableEq

def Request.map (request : Request) : SortedMap String Nat :=
  (request.tables.zip request.snapshots).foldl (fun map entry => map.insert entry.1 entry.2) ∅

def bytes (text : String) : List UInt8 :=
  Json.utf8 text.toList

/-- The bytes of `\0tables\0`. -/
def separator : List UInt8 :=
  [0, 116, 97, 98, 108, 101, 115, 0]

def entryText (entry : String × Nat) : List UInt8 :=
  bytes entry.1 ++ leBytes 8 entry.2

/-- The bytes that are hashed. -/
def keyText (request : Request) : List UInt8 :=
  bytes request.sql ++ (separator ++ request.map.entries.flatMap entryText)

/-- A table's name has bytes, none of them zero, and its snapshot fits into 32 bits. -/
def PlainEntry (entry : String × Nat) : Prop :=
  bytes entry.1 ≠ [] ∧ 0 ∉ bytes entry.1 ∧ entry.2 < 2 ^ 32

/-- The query has no zero bytes, and its tables are plain. -/
structure Request.Plain (request : Request) : Prop where
  sql : 0 ∉ bytes request.sql
  entries : ∀ entry ∈ request.tables.zip request.snapshots, PlainEntry entry

theorem bytes_injective : Function.Injective bytes := by
  intro left right same
  have decoded := congrArg Json.utf8Decode same
  rw [bytes, bytes, Json.utf8Decode_utf8, Json.utf8Decode_utf8] at decoded
  exact String.toList_injective (Option.some.inj decoded)

theorem leBytes_of_lt {value : Nat} (small : value < 2 ^ 32) :
    leBytes 8 value = leBytes 4 value ++ [0, 0, 0, 0] := by
  have high : value / 256 / 256 / 256 / 256 = 0 := by omega
  simp [leBytes, high]

theorem head_flatMap_ne {entries : List (String × Nat)}
    (plain : ∀ entry ∈ entries, PlainEntry entry) :
    (entries.flatMap entryText)[0]? ≠ some 0 := by
  cases entries with
  | nil => nofun
  | cons entry entries =>
      obtain ⟨filled, free, -⟩ := plain entry List.mem_cons_self
      obtain ⟨first, rest, name⟩ := List.exists_cons_of_ne_nil filled
      intro head
      rw [List.flatMap_cons, entryText, name] at head
      exact free (name ▸ Option.some.inj head ▸ List.mem_cons_self)

/-- Bytes after a name and the lower half of its snapshot. -/
theorem getElem?_text (name : List UInt8) {snapshot : Nat} (small : snapshot < 2 ^ 32)
    (rest : List UInt8) {position : Nat} (after : name.length + 4 ≤ position) :
    (name ++ leBytes 8 snapshot ++ rest)[position]? =
      ([0, 0, 0, 0] ++ rest)[position - (name.length + 4)]? := by
  rw [leBytes_of_lt small, ← List.append_assoc, List.append_assoc,
    List.getElem?_append_right (by simpa using after), List.length_append, length_leBytes]

/-- No name is shorter than the other at the start of one text. -/
theorem not_length_lt {name name' : List UInt8} {snapshot snapshot' : Nat}
    {rest rest' : List UInt8} (free : 0 ∉ name') (small : snapshot < 2 ^ 32)
    (small' : snapshot' < 2 ^ 32) (head : rest[0]? ≠ some 0)
    (same : name ++ leBytes 8 snapshot ++ rest = name' ++ leBytes 8 snapshot' ++ rest') :
    ¬name.length < name'.length := by
  intro shorter
  by_cases apart : name.length + 4 < name'.length
  · -- The zero bytes of the first snapshot are inside the second name.
    have zero := getElem?_text name small rest (Nat.le_refl (name.length + 4))
    rw [same, List.append_assoc, List.getElem?_append_left apart, Nat.sub_self] at zero
    exact free (List.mem_of_getElem? zero)
  · -- The rest begins inside the zero bytes of the second snapshot.
    have start := getElem?_text name small rest (show name.length + 4 ≤ name.length + 8 by omega)
    rw [same, getElem?_text name' small' rest' (by omega)] at start
    have offset : name.length + 8 - (name'.length + 4) < 4 := by omega
    have zero : ([0, 0, 0, 0] ++ rest')[name.length + 8 - (name'.length + 4)]? = some 0 := by
      generalize name.length + 8 - (name'.length + 4) = index at offset
      match index, offset with
      | 0, _ | 1, _ | 2, _ | 3, _ => rfl
    have four : name.length + 8 - (name.length + 4) = 4 := by omega
    rw [zero, four] at start
    exact head start.symm

/-- Texts of tables and snapshots determine these. -/
theorem entries_injective {left right : List (String × Nat)}
    (plain : ∀ entry ∈ left, PlainEntry entry) (plain' : ∀ entry ∈ right, PlainEntry entry)
    (same : left.flatMap entryText = right.flatMap entryText) : left = right := by
  induction left generalizing right with
  | nil =>
      cases right with
      | nil => rfl
      | cons entry right =>
          obtain ⟨filled, -, -⟩ := plain' entry List.mem_cons_self
          rw [List.flatMap_nil, List.flatMap_cons, entryText] at same
          simp [filled] at same
  | cons entry left ih =>
      cases right with
      | nil =>
          obtain ⟨filled, -, -⟩ := plain entry List.mem_cons_self
          rw [List.flatMap_nil, List.flatMap_cons, entryText] at same
          simp [filled] at same
      | cons entry' right =>
          obtain ⟨⟨filled, free, small⟩, later⟩ := List.forall_mem_cons.mp plain
          obtain ⟨⟨filled', free', small'⟩, later'⟩ := List.forall_mem_cons.mp plain'
          rw [List.flatMap_cons, List.flatMap_cons, entryText, entryText] at same
          have forth := not_length_lt free' small small' (head_flatMap_ne later) same
          have back := not_length_lt free small' small (head_flatMap_ne later') same.symm
          have length : (bytes entry.1).length = (bytes entry'.1).length := by omega
          obtain ⟨first, rest⟩ := List.append_inj same (by simp [length])
          obtain ⟨name, digits⟩ := List.append_inj first length
          have value := congrArg leValue digits
          rw [leValue_leBytes, leValue_leBytes, Nat.mod_eq_of_lt (by omega),
            Nat.mod_eq_of_lt (by omega)] at value
          rw [Prod.ext (bytes_injective name) value, ih later later' rest]

theorem plain_map {request : Request} (plain : request.Plain) :
    ∀ entry ∈ request.map.entries, PlainEntry entry := by
  have fold : ∀ (list : List (String × Nat)) (map : SortedMap String Nat),
      (∀ entry ∈ list, PlainEntry entry) → (∀ entry ∈ map.entries, PlainEntry entry) →
        ∀ entry ∈ (list.foldl (fun map entry => map.insert entry.1 entry.2) map).entries,
          PlainEntry entry := by
    intro list
    induction list with
    | nil => exact fun map _ here => here
    | cons first list ih =>
        intro map each here
        obtain ⟨own, later⟩ := List.forall_mem_cons.mp each
        refine ih _ later fun entry member => ?_
        rcases (SortedMap.mem_insertEntry map.ascending).mp member with rfl | ⟨old, -⟩
        · exact own
        · exact here entry old
  exact fold _ ∅ plain.entries nofun

/-- Plain requests with one key text are one query on the same snapshots. -/
theorem eq_of_keyText_eq {left right : Request} (plain : left.Plain) (plain' : right.Plain)
    (same : keyText left = keyText right) : left.sql = right.sql ∧ left.map = right.map := by
  have split (request : Request) (plain : request.Plain) : (keyText request).splitOn 0 =
      bytes request.sql :: (separator.tail ++ request.map.entries.flatMap entryText).splitOn 0 :=
    List.splitOn_append_cons_self_of_not_mem plain.sql _
  have sql : bytes left.sql = bytes right.sql := by
    have heads := congrArg (List.splitOn 0) same
    rw [split left plain, split right plain'] at heads
    exact (List.cons.inj heads).1
  rw [keyText, keyText, sql] at same
  have entries := entries_injective (plain_map plain) (plain_map plain')
    (List.append_cancel_left (List.append_cancel_left same))
  refine ⟨bytes_injective sql, ?_⟩
  cases left_map : left.map
  cases right_map : right.map
  rw [left_map, right_map] at entries
  cases entries
  rfl

/-! ## Files -/

structure Entry (β : Type) where
  modified : Nat
  batches : β

/-- Files of the cache directory, by name. -/
abbrev Directory (κ β : Type) : Type :=
  AList fun _ : κ => Entry β

/-- A cache with a byte budget; a budget of 0 disables it. -/
structure Cache (κ β : Type) where
  maxBytes : Nat
  /-- The name for what is hashed. -/
  name : List UInt8 → κ
  /-- The length of a file. -/
  size : β → Nat

variable {κ β : Type}

def total (cache : Cache κ β) (entries : List (Sigma fun _ : κ => Entry β)) : Nat :=
  (entries.map fun entry => cache.size entry.2.batches).sum

/-- Remove files in order until their total length is low enough. -/
def evict (cache : Cache κ β) (low : Nat) :
    Nat → List (Sigma fun _ : κ => Entry β) → List (Sigma fun _ : κ => Entry β)
  | _, [] => []
  | sum, entry :: rest =>
    if sum ≤ low then entry :: rest else evict cache low (sum - cache.size entry.2.batches) rest

def byModified (entries : List (Sigma fun _ : κ => Entry β)) :
    List (Sigma fun _ : κ => Entry β) :=
  entries.insertionSort fun left right => left.2.modified ≤ right.2.modified

theorem evict_sublist (cache : Cache κ β) (low sum : Nat)
    (entries : List (Sigma fun _ : κ => Entry β)) : (evict cache low sum entries).Sublist entries := by
  induction entries generalizing sum with
  | nil => exact .refl _
  | cons entry rest ih =>
      rw [evict]
      split
      · exact .refl _
      · exact (ih _).cons entry

def enforceBudget (cache : Cache κ β) (directory : Directory κ β) : Directory κ β :=
  if total cache directory.entries ≤ cache.maxBytes then directory
  else
    { entries := evict cache (cache.maxBytes - cache.maxBytes / 10)
        (total cache directory.entries) (byModified directory.entries)
      nodupKeys := List.NodupKeys.sublist (evict_sublist ..)
        ((List.perm_nodupKeys (List.perm_insertionSort ..)).mpr directory.nodupKeys) }

variable [DecidableEq κ]

def putTable (cache : Cache κ β) (request : Request) (batches : β) (now : Nat)
    (directory : Directory κ β) : Directory κ β :=
  if cache.maxBytes = 0 then directory
  else if cache.size batches > cache.maxBytes / 8 then directory
  else enforceBudget cache
    (directory.insert (cache.name (keyText request)) { modified := now, batches })

/-- A hit touches the file. -/
def get (cache : Cache κ β) (request : Request) (now : Nat) (directory : Directory κ β) :
    Option β × Directory κ β :=
  if cache.maxBytes = 0 then (none, directory)
  else match directory.lookup (cache.name (keyText request)) with
    | none => (none, directory)
    | some entry => (some entry.batches,
        directory.insert (cache.name (keyText request)) { entry with modified := now })

inductive Event (κ β : Type)
  | put (request : Request) (batches : β) (now : Nat)
  | get (request : Request) (now : Nat)
  | clear
  /-- A file is found corrupt or removed by somebody else. -/
  | remove (name : κ)

def step (cache : Cache κ β) (directory : Directory κ β) : Event κ β → Directory κ β
  | .put request batches now => putTable cache request batches now directory
  | .get request now => (get cache request now directory).2
  | .clear => ∅
  | .remove name => directory.erase name

/-! ### Hits -/

theorem lookup_of_enforceBudget {cache : Cache κ β} {directory : Directory κ β} {name : κ}
    {entry : Entry β} (found : (enforceBudget cache directory).lookup name = some entry) :
    directory.lookup name = some entry := by
  rw [enforceBudget] at found
  split at found
  · exact found
  · rw [← Option.mem_def, AList.mem_lookup_iff] at found ⊢
    exact (List.mem_insertionSort _).mp ((evict_sublist ..).subset found)

/-- A result is the last that is stored under a name, among those that are small enough. -/
def LastStored (cache : Cache κ β) (events : List (Event κ β)) (name : κ) (batches : β) : Prop :=
  ∃ before request now later, events = before ++ .put request batches now :: later ∧
    cache.name (keyText request) = name ∧
      ∀ request' batches' now', .put request' batches' now' ∈ later →
        cache.name (keyText request') = name → cache.maxBytes / 8 < cache.size batches'

/-- A file has the result that was stored last under its name. -/
theorem stored_of_lookup (cache : Cache κ β) (enabled : cache.maxBytes ≠ 0)
    (events : List (Event κ β)) {name : κ} {entry : Entry β}
    (found : (Run.after (step cache) ∅ events).lookup name = some entry) :
    LastStored cache events name entry.batches := by
  induction events using List.reverseRecOn generalizing entry with
  | nil => cases found
  | append_singleton events event ih =>
      have kept (old : Entry β) (same : old.batches = entry.batches)
          (found : (Run.after (step cache) ∅ events).lookup name = some old)
          (last : ∀ request' batches' now', event = .put request' batches' now' →
            cache.name (keyText request') = name → cache.maxBytes / 8 < cache.size batches') :
          LastStored cache (events ++ [event]) name entry.batches := by
        obtain ⟨before, request, now, later, rfl, named, none_later⟩ := ih found
        refine ⟨before, request, now, later ++ [event], ?_, named, fun request' batches' now' member => ?_⟩
        · rw [same, List.append_assoc, List.cons_append]
        · rcases List.mem_append.mp member with earlier | here
          · exact none_later request' batches' now' earlier
          · exact last request' batches' now' (List.mem_singleton.mp here).symm
      rw [Run.after_append] at found
      cases event with
      | put request batches now =>
          rw [Run.after_cons, Run.after_nil, step, putTable, if_neg enabled] at found
          split at found
          · rename_i large
            exact kept _ rfl found fun _ _ _ same _ => (Event.put.inj same).2.1 ▸ large
          · have inserted := lookup_of_enforceBudget found
            by_cases own : name = cache.name (keyText request)
            · rw [own, AList.lookup_insert] at inserted
              obtain rfl := Option.some.inj inserted
              exact ⟨events, request, now, [], rfl, own.symm, nofun⟩
            · rw [AList.lookup_insert_ne own] at inserted
              refine kept _ rfl inserted fun _ _ _ same named => absurd ?_ own
              rw [← named, (Event.put.inj same).1]
      | get request now =>
          rw [Run.after_cons, Run.after_nil, step, get, if_neg enabled] at found
          split at found
          · exact kept _ rfl found nofun
          · rename_i old there
            by_cases own : name = cache.name (keyText request)
            · rw [own, AList.lookup_insert] at found
              rw [← own] at there
              obtain rfl := Option.some.inj found
              exact kept old rfl there nofun
            · rw [AList.lookup_insert_ne own] at found
              exact kept _ rfl found nofun
      | clear => cases found
      | remove other =>
          have there : (Run.after (step cache) ∅ events).lookup name = some entry := by
            by_cases own : name = other
            · rw [Run.after_cons, Run.after_nil, step, own, AList.lookup_erase] at found
              cases found
            · rwa [Run.after_cons, Run.after_nil, step, AList.lookup_erase_ne own] at found
          exact kept _ rfl there nofun

/-- A hit gives the result that was stored last for the query on the snapshots of its tables, among
those that were small enough, if requests are plain and their key texts do not collide. -/
theorem stored_of_hit (cache : Cache κ β) (events : List (Event κ β)) {request : Request}
    {now : Nat} {batches : β}
    (hit : (get cache request now (Run.after (step cache) ∅ events)).1 = some batches)
    (plain : request.Plain)
    (others : ∀ request' batches' now', .put request' batches' now' ∈ events → request'.Plain ∧
      (cache.name (keyText request') = cache.name (keyText request) →
        keyText request' = keyText request)) :
    ∃ before request' now' later, events = before ++ .put request' batches now' :: later ∧
      request'.sql = request.sql ∧ request'.map = request.map ∧
        ∀ request'' batches'' now'', .put request'' batches'' now'' ∈ later →
          request''.sql = request.sql → request''.map = request.map →
            cache.maxBytes / 8 < cache.size batches'' := by
  rw [get] at hit
  split at hit
  · cases hit
  · rename_i enabled
    split at hit
    · cases hit
    · rename_i entry found
      obtain rfl := Option.some.inj hit
      obtain ⟨before, request', now', later, rfl, named, none_later⟩ :=
        stored_of_lookup cache enabled events found
      obtain ⟨plain', collides⟩ := others request' entry.batches now' (by simp)
      obtain ⟨sql, map⟩ := eq_of_keyText_eq plain' plain (collides named)
      refine ⟨before, request', now', later, rfl, sql, map, fun request'' batches'' now'' member
        sql_eq map_eq => none_later request'' batches'' now'' member ?_⟩
      rw [keyText, keyText, sql_eq, map_eq]

/-- Count the rows of a table. -/
def countRows (snapshot : Nat) : Request where
  sql := "SELECT count(*) FROM t"
  tables := ["t"]
  snapshots := [snapshot]

/-- A cache that names files by what would be hashed. -/
def texts : Cache (List UInt8) (List Nat) where
  maxBytes := 80
  name := id
  size := List.length

/-- Store results for two snapshots. -/
def stores : List (Event (List UInt8) (List Nat)) :=
  [.put (countRows 1) [10] 5, .put (countRows 2) [11] 6]

theorem plain_countRows {snapshot : Nat} (small : snapshot < 2 ^ 32) : (countRows snapshot).Plain := by
  constructor
  · change 0 ∉ bytes "SELECT count(*) FROM t"
    decide +kernel
  · intro entry member
    obtain rfl : entry = ("t", snapshot) := List.mem_singleton.mp member
    have named : bytes "t" ≠ [] ∧ 0 ∉ bytes "t" := by decide +kernel
    exact ⟨named.1, named.2, small⟩

theorem countRows_hit :
    (get texts (countRows 1) 7 (Run.after (step texts) ∅ stores)).1 = some [10] ∧
      ∃ before request' now' later, stores = before ++ .put request' [10] now' :: later ∧
        request'.sql = (countRows 1).sql ∧ request'.map = (countRows 1).map ∧
          ∀ request'' batches'' now'', .put request'' batches'' now'' ∈ later →
            request''.sql = (countRows 1).sql → request''.map = (countRows 1).map →
              texts.maxBytes / 8 < texts.size batches'' := by
  have hit : (get texts (countRows 1) 7 (Run.after (step texts) ∅ stores)).1 = some [10] := by
    decide +kernel
  refine ⟨hit, stored_of_hit texts stores hit (plain_countRows (by decide)) ?_⟩
  intro request' batches' now' member
  have plain : request'.Plain := by
    rcases List.mem_pair.mp member with same | same
    · exact (Event.put.inj same).1 ▸ plain_countRows (by decide)
    · exact (Event.put.inj same).1 ▸ plain_countRows (by decide)
  exact ⟨plain, id⟩

end ResultCache

end IcefallDB
