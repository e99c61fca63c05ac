import Mathlib.Data.Set.Function
import RemoteBackup.Lib.Run
import RemoteBackup.Proofs.Views

/-!
# `RemoteBackup.Proofs.PathIdentity`: a view as a map on paths

A view is meant to be a map whose keys are paths up to spelling: `equal_to` compares elements. But
`hash` is that of the string, and a lookup finds an entry only if both agree. So two spellings of
one path are one key when their strings have the same hash.

* `tracks_run`: on paths whose spellings hash alike, a view is the finite map on elements after any
  calls.
* `dir_is_map_iff`: it is for no other paths.
* `not_dir_is_map`: after `/a/b`, the view takes `/a//b` for another path.
-/

set_option autoImplicit false

namespace RemoteBackup.Proofs

open Lib

/-! ### Calls -/

/-- A call that changes a view. -/
inductive DirCall where
  | insertOrAssign (p : Path) (r : Resource)
  | erase (p : Path)
  | clear

/-- The finite maps on the elements of paths. -/
abbrev PathMap := Finmap fun _ : List Bytes => Resource

namespace DirCall

/-- What the call does to a view, and what it returns. -/
def onDir (hash : Bytes → UInt64) (d : Dir) : DirCall → Dir × Option Bool
  | .insertOrAssign p r => ((d.insertOrAssign hash p r).1, some (d.insertOrAssign hash p r).2)
  | .erase p => ((d.erase hash p).1, some (d.erase hash p).2)
  | .clear => (d.clear, none)

/-- What it does to a finite map: an insertion tells whether the key is new, and an erasure whether
it was there. -/
def onMap (m : PathMap) : DirCall → PathMap × Option Bool
  | .insertOrAssign p r => (m.insert (elements p) r, some (decide (elements p ∉ m)))
  | .erase p => (m.erase (elements p), some (decide (elements p ∈ m)))
  | .clear => (∅, none)

/-- The path of the call, if it has one, is one of these. -/
def Within (S : Set Path) : DirCall → Prop
  | .insertOrAssign p _ => p ∈ S
  | .erase p => p ∈ S
  | .clear => True

end DirCall

/-- A new view after some calls. -/
def dirAfter (hash : Bytes → UInt64) (root : Path) (calls : List DirCall) : Dir :=
  run (fun d call => (DirCall.onDir hash d call).1) (Dir.getInstance root) calls

/-- An empty finite map after the same calls. -/
def mapAfter (calls : List DirCall) : PathMap :=
  run (fun m call => (DirCall.onMap m call).1) ∅ calls

/-! ### A map on path identity -/

/-- The view after these calls is the finite map after them, as far as it is asked about the paths
of `S`. -/
structure ActsAsMap (hash : Bytes → UInt64) (root : Path) (S : Set Path) (calls : List DirCall) :
    Prop where
  hashes : ∀ p ∈ S, ∀ q ∈ S, elements p = elements q → hash p = hash q
  spellings : ∀ p ∈ S, ∀ q ∈ S, elements p = elements q →
    (dirAfter hash root calls).rsrc hash p = (dirAfter hash root calls).rsrc hash q ∧
      (dirAfter hash root calls).contains hash p = (dirAfter hash root calls).contains hash q
  rsrc : ∀ p ∈ S, (dirAfter hash root calls).rsrc hash p = (mapAfter calls).lookup (elements p)
  contains : ∀ p ∈ S,
    (dirAfter hash root calls).contains hash p = decide (elements p ∈ mapAfter calls)
  returns : ∀ call : DirCall, call.Within S →
    (call.onDir hash (dirAfter hash root calls)).2 = (call.onMap (mapAfter calls)).2
  distinct : (dirAfter hash root calls).content.Pairwise fun e e' => elements e.1 ≠ elements e'.1
  visits : ∀ k r, (mapAfter calls).lookup k = some r ↔
    ∃ p, (p, r) ∈ (dirAfter hash root calls).forEach (fun seen e => seen ++ [e]) [] ∧
      elements p = k

/-- Spellings of one path have one hash. -/
def HashedAlike (hash : Bytes → UInt64) (S : Set Path) : Prop :=
  ∀ p ∈ S, ∀ q ∈ S, elements p = elements q → hash p = hash q

/-- A view and a finite map with the same entries. -/
structure Tracks (S : Set Path) (d : Dir) (m : PathMap) : Prop where
  spelled : ∀ e ∈ d.content, e.1 ∈ S
  distinct : Keyed.Distinct elements d.content
  map : Keyed.toMap elements d.content = m

variable {hash : Bytes → UInt64} {root : Path} {S : Set Path} {d : Dir} {m : PathMap}

/-- The map compares what it should. -/
theorem HashedAlike.agree (halike : HashedAlike hash S) (h : ∀ e ∈ d.content, e.1 ∈ S) {p : Path}
    (hp : p ∈ S) :
    ∀ e ∈ d.content, mapKey hash e.1 = mapKey hash p ↔ elements e.1 = elements p := by
  intro e he
  rw [mapKey, mapKey, Prod.mk.injEq]
  exact ⟨fun hkey => hkey.2, fun hsame => ⟨halike e.1 (h e he) p hp hsame, hsame⟩⟩

namespace Tracks

variable (halike : HashedAlike hash S) (h : Tracks S d m) {p : Path} (hp : p ∈ S)
include halike h hp

/-- `rsrc` looks the components of the path up. -/
theorem rsrc_eq : d.rsrc hash p = m.lookup (elements p) := by
  rw [Dir.rsrc_eq_find, Keyed.find_congr (halike.agree h.spelled hp), ← Keyed.lookup_toMap, h.map]

/-- `contains` tells whether the components are a key. -/
theorem contains_eq : d.contains hash p = decide (elements p ∈ m) := by
  rw [Dir.contains_eq_has, Keyed.has_congr (halike.agree h.spelled hp), Keyed.has_eq_mem, h.map]

/-- `insert_or_assign` puts the components in, and reports whether they were new. -/
theorem insertOrAssign (r : Resource) :
    Tracks S (d.insertOrAssign hash p r).1 (m.insert (elements p) r) ∧
      (d.insertOrAssign hash p r).2 = decide (elements p ∉ m) := by
  rw [Dir.insertOrAssign_eq_assign, Keyed.assign_congr (halike.agree h.spelled hp)]
  refine ⟨⟨?_, Keyed.distinct_assign h.distinct p r, ?_⟩, ?_⟩
  · intro e he
    rcases Keyed.mem_assign he with rfl | ⟨e', he', hkey⟩
    · exact hp
    · rw [hkey]
      exact h.spelled e' he'
  · rw [Keyed.toMap_assign, h.map]
  · rw [Keyed.assign_snd, Keyed.has_eq_mem, h.map]
    simp

/-- `erase` takes the components out, and reports whether they were there. -/
theorem erase :
    Tracks S (d.erase hash p).1 (m.erase (elements p)) ∧
      (d.erase hash p).2 = decide (elements p ∈ m) := by
  rw [Dir.erase_eq_discard, Keyed.discard_congr (halike.agree h.spelled hp)]
  refine ⟨⟨?_, Keyed.distinct_discard h.distinct _, ?_⟩, ?_⟩
  · exact fun e he => h.spelled e (List.mem_of_mem_filter he)
  · rw [Keyed.toMap_discard, h.map]
  · show Keyed.has elements d.content (elements p) = _
    rw [Keyed.has_eq_mem, h.map]

end Tracks

/-- An empty view tracks the empty map. -/
theorem tracks_empty (S : Set Path) (root : Path) : Tracks S ⟨root, []⟩ ∅ where
  spelled := by simp
  distinct := List.nodup_nil
  map := rfl

/-- One call. -/
theorem tracks_call (halike : HashedAlike hash S) (h : Tracks S d m) {call : DirCall}
    (hcall : call.Within S) :
    Tracks S (call.onDir hash d).1 (call.onMap m).1 ∧ (call.onDir hash d).2 = (call.onMap m).2 := by
  cases call with
  | insertOrAssign p r =>
      obtain ⟨htracks, hflag⟩ := h.insertOrAssign halike hcall r
      exact ⟨htracks, congrArg some hflag⟩
  | erase p =>
      obtain ⟨htracks, hflag⟩ := h.erase halike hcall
      exact ⟨htracks, congrArg some hflag⟩
  | clear => exact ⟨tracks_empty S d.path, rfl⟩

/-- All calls. -/
theorem tracks_run (halike : HashedAlike hash S) (root : Path) {calls : List DirCall}
    (hcalls : ∀ call ∈ calls, call.Within S) :
    Tracks S (dirAfter hash root calls) (mapAfter calls) := by
  induction calls using List.reverseRecOn with
  | nil => exact tracks_empty S root
  | append_singleton calls call ih =>
      rw [dirAfter, mapAfter, run_append, run_append]
      exact (tracks_call halike (ih fun c hc => hcalls c (List.mem_append_left _ hc))
        (hcalls call (by simp))).1

/-- `for_each` visits all entries in their order. -/
theorem forEach_entries (d : Dir) : d.forEach (fun seen e => seen ++ [e]) [] = d.content := by
  rw [Dir.forEach, List.foldl_append_eq_append]
  simp [← List.flatMap_def]

/-- Where paths with the same components have the same hash, a view acts as a map. Induction on the
calls. -/
theorem actsAsMap_of_hashedAlike (halike : HashedAlike hash S) (root : Path)
    {calls : List DirCall} (hcalls : ∀ call ∈ calls, call.Within S) :
    ActsAsMap hash root S calls := by
  have h := tracks_run halike root hcalls
  refine ⟨halike, ?_, fun p hp => h.rsrc_eq halike hp, fun p hp => h.contains_eq halike hp,
    fun call hcall => (tracks_call halike h hcall).2, ?_, ?_⟩
  · intro p hp q hq hsame
    rw [h.rsrc_eq halike hp, h.rsrc_eq halike hq, h.contains_eq halike hp, h.contains_eq halike hq,
      hsame]
    exact ⟨rfl, rfl⟩
  · exact List.pairwise_map.mp h.distinct
  · intro k r
    rw [forEach_entries, ← Keyed.find_eq_some_iff h.distinct, ← Keyed.lookup_toMap, h.map]

/-- A lookup under another spelling misses when the hash is another one. -/
theorem contains_respelled {p q : Path} (r : Resource) (hne : hash p ≠ hash q) :
    (dirAfter hash root [.insertOrAssign p r]).contains hash q = false := by
  show ((Dir.getInstance root).insertOrAssign hash p r).1.contains hash q = false
  simp [Dir.insertOrAssign, Dir.getInstance, Dir.contains, sameKey, hne]

/-- Whatever calls are made with the paths of `S`, the view acts as the map. -/
def IsMap (hash : Bytes → UInt64) (root : Path) (S : Set Path) : Prop :=
  ∀ calls : List DirCall, (∀ call ∈ calls, call.Within S) → ActsAsMap hash root S calls

/-- And only there: two paths that the hash tells apart are two keys. -/
theorem isMap_iff : IsMap hash root S ↔ HashedAlike hash S := by
  constructor
  · -- One insertion and one lookup under another spelling tell already.
    intro hmap p hp q hq hsame
    by_contra hne
    have hacts := hmap [.insertOrAssign p ⟨false, []⟩] (by simpa [DirCall.Within] using hp)
    have hfound := hacts.contains q hq
    rw [contains_respelled ⟨false, []⟩ hne, eq_comm, decide_eq_false_iff_not, ← hsame] at hfound
    refine hfound ?_
    show elements p ∈ (∅ : PathMap).insert (elements p) ⟨false, []⟩
    simp
  · exact fun halike calls => actsAsMap_of_hashedAlike halike root

/-- Where no two strings collide, spellings that hash alike are one spelling. -/
theorem hashedAlike_iff (hinj : Set.InjOn hash S) : HashedAlike hash S ↔ Set.InjOn elements S := by
  constructor
  · exact fun halike p hp q hq hsame => hinj hp hq (halike p hp q hq hsame)
  · intro hone p hp q hq hsame
    rw [hone hp hq hsame]

/-- **When a view is a map on path identity.** For every hash and every set of paths: whatever calls
are made with the paths of the set, the view is the finite map on elements if and only if spellings
of one path in the set have one hash. Where no two strings of the set collide, the set has one
spelling of each path. -/
theorem dir_is_map_iff (hash : Bytes → UInt64) (root : Path) (S : Set Path) :
    (IsMap hash root S ↔ HashedAlike hash S) ∧
      (Set.InjOn hash S → (IsMap hash root S ↔ Set.InjOn elements S)) :=
  ⟨isMap_iff, fun hinj => isMap_iff.trans (hashedAlike_iff hinj)⟩

/-- `std::hash<std::string>` of GCC's library on three strings. -/
def stdHash (bytes : Bytes) : UInt64 :=
  ([(ascii "/a/b", 5427101232139121189), (ascii "/a//b", 9774384014591280227),
    (ascii "/c", 16696217299060478969)].lookup bytes).getD 0

/-- Two paths that are hashed alike exactly when they are written alike. -/
theorem dir_is_map_two :
    IsMap stdHash (ascii "/backup") {ascii "/a/b", ascii "/c"} ↔
      Set.InjOn elements {ascii "/a/b", ascii "/c"} := by
  refine (dir_is_map_iff stdHash (ascii "/backup") {ascii "/a/b", ascii "/c"}).2 ?_
  rintro p (rfl | rfl) q (rfl | rfl) h <;> first | rfl | exact absurd h (by decide)

/-- `/a//b` is missed after an insertion of `/a/b`, and a second entry goes in for it. -/
theorem not_dir_is_map :
    elements (ascii "/a/b") = elements (ascii "/a//b") ∧
      (dirAfter stdHash (ascii "/backup") [.insertOrAssign (ascii "/a/b") ⟨true, []⟩]).rsrc stdHash
        (ascii "/a//b") = none ∧
      (dirAfter stdHash (ascii "/backup") [.insertOrAssign (ascii "/a/b") ⟨true, []⟩,
        .insertOrAssign (ascii "/a//b") ⟨true, []⟩]).content.length = 2 ∧
      ¬ IsMap stdHash (ascii "/backup") {ascii "/a/b", ascii "/a//b"} := by
  refine ⟨by decide, by decide, by decide, fun h => ?_⟩
  have hsame := isMap_iff.mp h (ascii "/a/b") (by simp) (ascii "/a//b") (by simp) (by decide)
  exact absurd hsame (by decide)

end RemoteBackup.Proofs
