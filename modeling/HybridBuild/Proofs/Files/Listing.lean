import HybridBuild.Files.Digest
import HybridBuild.Proofs.Distinct
import HybridBuild.Proofs.Traverse
import Mathlib.Data.List.Chain

/-!
# What a listing tells

The listing of a directory is cut into its lines where a line feed stands in front of the letter
of a kind. So it tells the entries of the directory apart from those of any other one, as long as
their names do not hold such a place, and the digests of the contents are told apart. A name that
holds one can make an entry pass for two.
-/
namespace HybridBuild

namespace Sha256

def digits : List Char := "0123456789abcdef".toList

theorem mem_digits_of_mem_hexWord {w : UInt32} {c : Char} (h : c ∈ hexWord w) : c ∈ digits := by
  have hdigit : ∀ n < 16, Nat.digitChar n ∈ digits := by decide
  obtain ⟨i, -, rfl⟩ := List.mem_map.mp h
  exact hdigit _ (Nat.mod_lt _ (by decide))

@[simp] theorem length_hexWord (w : UInt32) : (hexWord w).length = 8 := by
  rw [hexWord, List.length_map, List.length_range]

theorem mem_digits_of_mem_digest {bytes : List UInt8} {c : Char} (h : c ∈ (digest bytes).toList) :
    c ∈ digits := by
  rw [digest, String.toList_ofList, List.mem_flatMap] at h
  obtain ⟨w, -, hc⟩ := h
  exact mem_digits_of_mem_hexWord hc

@[simp] theorem length_digest (bytes : List UInt8) : (digest bytes).toList.length = 64 := by
  simp [digest]

/-- No two of some contents have the same digest. -/
def TellsApart (contents : List (List UInt8)) : Prop :=
  ∀ a ∈ contents, ∀ b ∈ contents, digest a = digest b → a = b

/-- It is enough to compare different contents, in one order. -/
theorem tellsApart_iff {contents : List (List UInt8)} :
    TellsApart contents ↔ contents.Pairwise fun a b => a ≠ b → digest a ≠ digest b := by
  constructor
  · intro h
    exact List.pairwise_of_forall_mem_list fun a ha b hb hne heq => hne (h a ha b hb heq)
  · intro h a ha b hb heq
    have hsymm : Std.Symm fun a b : List UInt8 => a ≠ b → digest a ≠ digest b :=
      ⟨fun _ _ hab hne heq => hab hne.symm heq.symm⟩
    by_contra hne
    exact h.forall ha hb hne hne heq

instance (contents : List (List UInt8)) : Decidable (TellsApart contents) :=
  decidable_of_iff _ tellsApart_iff.symm

end Sha256

theorem Utf8.encode_inj {a b : String} : encode a = encode b ↔ a = b := by
  rw [encode, encode, Array.toList_inj, ← ByteArray.ext_iff]
  exact String.toByteArray_inj

section Lines

variable {text a b line line' : List Char} {c : Char}

def kindLetters : List Char := ['F', 'D', 'L']

/-- No line feed in a text is followed by the letter of a kind. -/
def IsUnbroken (text : List Char) : Prop := text.IsChain fun c d => c = '\n' → d ∉ kindLetters

instance (text : List Char) : Decidable (IsUnbroken text) :=
  inferInstanceAs (Decidable (text.IsChain _))

namespace IsUnbroken

theorem cons (hc : c ≠ '\n') (h : IsUnbroken text) : IsUnbroken (c :: text) :=
  List.isChain_cons.mpr ⟨fun _ _ heq => absurd heq hc, h⟩

theorem of_notMem (h : '\n' ∉ text) : IsUnbroken text := by
  induction text with
  | nil => exact List.isChain_nil
  | cons c text ih =>
    rw [List.mem_cons, not_or] at h
    exact cons (Ne.symm h.1) (ih h.2)

theorem append (ha : IsUnbroken a) (hb : IsUnbroken b) (hjoint : ∀ c ∈ b.head?, c ∉ kindLetters) :
    IsUnbroken (a ++ b) :=
  List.isChain_append.mpr ⟨ha, hb, fun _ _ c hc _ => hjoint c hc⟩

theorem append_cons (ha : IsUnbroken a) (hb : IsUnbroken b) (hfeed : c ≠ '\n')
    (hletter : c ∉ kindLetters) : IsUnbroken (a ++ c :: b) :=
  ha.append (hb.cons hfeed) (by simpa using hletter)

theorem intercalate {parts : List (List Char)} (h : ∀ part ∈ parts, IsUnbroken part) :
    IsUnbroken (['/'].intercalate parts) := by
  induction parts with
  | nil => exact List.isChain_nil
  | cons part parts ih =>
    obtain ⟨hpart, hparts⟩ := List.forall_mem_cons.mp h
    by_cases hnil : parts = []
    · simpa [hnil] using hpart
    · rw [List.intercalate_cons_of_ne_nil hnil, List.append_assoc, List.singleton_append]
      exact hpart.append_cons (ih hparts) (by decide) (by decide)

end IsUnbroken

/-- A line of a listing: it starts with the letter of a kind, ends with a line feed, and holds no
other line feed where a line could start. -/
structure IsLine (line : List Char) : Prop where
  starts : ∃ c ∈ kindLetters, ∃ rest, line = c :: rest
  ends : ∃ init, line = init ++ ['\n']
  unbroken : IsUnbroken line

/-- A line does not go on where another one could start. -/
theorem IsLine.eq_nil_of_append (h : IsLine line) (hlong : IsLine (line ++ text))
    (hletter : ∀ c ∈ text.head?, c ∈ kindLetters) : text = [] := by
  cases text with
  | nil => rfl
  | cons c text =>
    obtain ⟨init, rfl⟩ := h.ends
    have hchain := (List.isChain_append.mp hlong.unbroken).2.2
    exact absurd (hletter c rfl) (hchain '\n' (by simp) c rfl rfl)

theorem letter_of_head?_flatten {lines : List (List Char)} (h : ∀ line ∈ lines, IsLine line) :
    ∀ c ∈ lines.flatten.head?, c ∈ kindLetters := by
  cases lines with
  | nil => simp
  | cons line lines =>
    obtain ⟨c, hc, rest, rfl⟩ := (h line List.mem_cons_self).starts
    simpa using hc

/-- The first lines of a text are the same. -/
theorem IsLine.eq_of_append_eq (h : IsLine line) (h' : IsLine line')
    (ha : ∀ c ∈ a.head?, c ∈ kindLetters) (hb : ∀ c ∈ b.head?, c ∈ kindLetters)
    (heq : line ++ a = line' ++ b) : line = line' := by
  have hstart {m more : List Char} (hm : ∀ c ∈ (m ++ more).head?, c ∈ kindLetters) :
      ∀ c ∈ m.head?, c ∈ kindLetters := by
    intro c hc
    exact hm c (by rw [List.head?_append, Option.mem_def.mp hc]; rfl)
  rcases List.append_eq_append_iff.mp heq with ⟨m, rfl, rfl⟩ | ⟨m, rfl, rfl⟩
  · rw [h.eq_nil_of_append h' (hstart ha), List.append_nil]
  · rw [h'.eq_nil_of_append h (hstart hb), List.append_nil]

/-- A text is cut into lines in one way: by induction on the lines, of which the first ones are
the same. -/
theorem eq_of_flatten_eq {lines lines' : List (List Char)} (h : ∀ line ∈ lines, IsLine line)
    (h' : ∀ line ∈ lines', IsLine line) (heq : lines.flatten = lines'.flatten) :
    lines = lines' := by
  induction lines generalizing lines' with
  | nil =>
    cases lines' with
    | nil => rfl
    | cons line' lines' =>
      obtain ⟨c, -, rest, rfl⟩ := (h' line' List.mem_cons_self).starts
      simp at heq
  | cons line lines ih =>
    obtain ⟨hline, hlines⟩ := List.forall_mem_cons.mp h
    cases lines' with
    | nil =>
      obtain ⟨c, -, rest, rfl⟩ := hline.starts
      simp at heq
    | cons line' lines' =>
      obtain ⟨hline', hlines'⟩ := List.forall_mem_cons.mp h'
      rw [List.flatten_cons, List.flatten_cons] at heq
      obtain rfl := hline.eq_of_append_eq hline' (letter_of_head?_flatten hlines)
        (letter_of_head?_flatten hlines') heq
      rw [ih hlines hlines' (List.append_cancel_left heq)]

end Lines

/-- A name that cannot be taken for more than itself in a listing. -/
structure IsListedName (name : String) : Prop where
  slashless : '/' ∉ name.toList
  unbroken : IsUnbroken name.toList

instance (name : String) : Decidable (IsListedName name) :=
  decidable_of_iff ('/' ∉ name.toList ∧ IsUnbroken name.toList)
    ⟨fun h => ⟨h.1, h.2⟩, fun h => ⟨h.slashless, h.unbroken⟩⟩

section Entries

variable {loc loc' : Location} {x y : Location × Entry} {entries entries' : List (Location × Entry)}

/-- Whether an entry has a line in a listing. -/
def Entry.isShown : Entry → Bool
  | special => false
  | file _ | dir | link _ => true

/-- What an entry is digested by. -/
def Entry.content? : Entry → Option (List UInt8)
  | file content => some content
  | link target => some (Utf8.encode target)
  | dir | special => none

def Entry.letter : Entry → Char
  | file _ => 'F'
  | link _ => 'L'
  | dir | special => 'D'

/-- What follows the name of an entry in its line. -/
def Entry.tail (e : Entry) : List Char :=
  match e.content? with
  | some content => ':' :: (Sha256.digest content).toList
  | none => []

def relativePath (loc : Location) : List Char := ['/'].intercalate (loc.map String.toList)

theorem toList_listingLine (h : x.2.isShown) :
    (listingLine Sha256.digest x).toList =
      x.2.letter :: ':' :: (relativePath x.1 ++ x.2.tail) ++ ['\n'] := by
  obtain ⟨loc, e⟩ := x
  cases e with
  | special => cases h
  | file content => simp [listingLine, Entry.letter, Entry.tail, Entry.content?, relativePath]
  | dir => simp [listingLine, Entry.letter, Entry.tail, Entry.content?, relativePath]
  | link target => simp [listingLine, Entry.letter, Entry.tail, Entry.content?, relativePath]

/-- A location below a directory whose names are those of a listing. -/
structure IsListedBelow (loc : Location) : Prop where
  ne_nil : loc ≠ []
  names : ∀ name ∈ loc, IsListedName name

theorem IsListedBelow.splitOn_relativePath (h : IsListedBelow loc) :
    (relativePath loc).splitOn '/' = loc.map String.toList := by
  refine List.splitOn_intercalate _ ?_ (by simpa using h.ne_nil)
  simpa using fun name hname => (h.names name hname).slashless

/-- Names that do not hold slashes come back from between them. -/
theorem IsListedBelow.eq_of_relativePath_eq (h : IsListedBelow loc) (h' : IsListedBelow loc')
    (heq : relativePath loc = relativePath loc') : loc = loc' := by
  have hmap : loc.map String.toList = loc'.map String.toList := by
    rw [← h.splitOn_relativePath, heq, h'.splitOn_relativePath]
  exact (List.map_inj_right fun _ _ => String.toList_inj.mp).mp hmap

theorem Entry.length_tail (e : Entry) : e.tail.length = if e.letter = 'D' then 0 else 65 := by
  cases e <;> simp [tail, content?, letter]

/-- An entry is known by its letter and what follows its name. -/
theorem Entry.eq_of_tail_eq {e e' : Entry} (hshown : e.isShown) (hshown' : e'.isShown)
    (hdigest : ∀ a ∈ e.content?, ∀ b ∈ e'.content?, Sha256.digest a = Sha256.digest b → a = b)
    (hletter : e.letter = e'.letter) (htail : e.tail = e'.tail) : e = e' := by
  have hcontent {a b : List UInt8} (ha : e.content? = some a) (hb : e'.content? = some b) :
      a = b := by
    simp only [tail, ha, hb, List.cons.injEq, true_and] at htail
    exact hdigest a ha b hb (String.toList_inj.mp htail)
  cases e with
  | special => cases hshown
  | file content =>
    cases e' with
    | file content' => rw [hcontent rfl rfl]
    | dir | link | special => simp [letter] at hletter
  | dir =>
    cases e' with
    | dir => rfl
    | file | link | special => simp_all [letter, isShown]
  | link target =>
    cases e' with
    | link target' => rw [Utf8.encode_inj.mp (hcontent rfl rfl)]
    | file | dir | special => simp [letter] at hletter

theorem eq_of_listingLine_eq (hx : x.2.isShown) (hy : y.2.isShown)
    (h : IsListedBelow x.1) (h' : IsListedBelow y.1)
    (hdigest : ∀ a ∈ x.2.content?, ∀ b ∈ y.2.content?, Sha256.digest a = Sha256.digest b → a = b)
    (heq : listingLine Sha256.digest x = listingLine Sha256.digest y) : x = y := by
  have hline := congrArg String.toList heq
  rw [toList_listingLine hx, toList_listingLine hy] at hline
  obtain ⟨hletter, hrest⟩ := List.cons.inj (List.append_cancel_right hline)
  have hlength : x.2.tail.length = y.2.tail.length := by
    rw [Entry.length_tail, Entry.length_tail, hletter]
  obtain ⟨hpath, htail⟩ := List.append_inj' (List.cons.inj hrest).2 hlength
  exact Prod.ext (h.eq_of_relativePath_eq h' hpath)
    (Entry.eq_of_tail_eq hx hy hdigest hletter htail)

theorem Entry.lineFeed_notMem_tail (e : Entry) : '\n' ∉ e.tail := by
  have hdigest (bytes : List UInt8) : '\n' ∉ (Sha256.digest bytes).toList := fun h =>
    absurd (Sha256.mem_digits_of_mem_digest h) (by decide)
  unfold tail
  split
  · simp [hdigest]
  · simp

theorem Entry.letter_mem (e : Entry) : e.letter ∈ kindLetters := by
  cases e <;> simp [letter, kindLetters]

theorem isLine_listingLine (hx : x.2.isShown) (h : IsListedBelow x.1) :
    IsLine (listingLine Sha256.digest x).toList := by
  rw [toList_listingLine hx]
  have hpath : IsUnbroken (relativePath x.1) :=
    IsUnbroken.intercalate (by simpa using fun name hname => (h.names name hname).unbroken)
  have hhead : ∀ c ∈ x.2.tail.head?, c ∉ kindLetters := by
    unfold Entry.tail
    split <;> simp [kindLetters]
  have hbody : IsUnbroken (relativePath x.1 ++ x.2.tail) :=
    hpath.append (.of_notMem x.2.lineFeed_notMem_tail) hhead
  have hletter : x.2.letter ≠ '\n' := fun h => absurd (h ▸ x.2.letter_mem) (by decide)
  exact {
    starts := ⟨_, x.2.letter_mem, _, rfl⟩
    ends := ⟨_, rfl⟩
    unbroken := ((hbody.cons (by decide)).cons hletter).append (.singleton _)
      (by simp [kindLetters]) }

/-- The entries that have a line in a listing. -/
def shownOf (entries : List (Location × Entry)) : List (Location × Entry) :=
  entries.filter fun x => x.2.isShown

/-- A listing is made of the lines of the entries that are shown. -/
theorem toList_listing (entries : List (Location × Entry)) :
    (listing Sha256.digest entries).toList =
      ((shownOf entries).map fun x => (listingLine Sha256.digest x).toList).flatten := by
  rw [listing, String.toList_join, List.flatMap_map, shownOf]
  induction entries with
  | nil => rfl
  | cons x entries ih =>
    obtain ⟨loc, e⟩ := x
    rw [List.flatMap_cons, ih]
    cases e with
    | special => simp [listingLine, Entry.isShown]
    | file | dir | link => simp [Entry.isShown]

theorem eq_of_map_eq {α β : Type} {f : α → β} {xs ys : List α}
    (hinj : ∀ x ∈ xs, ∀ y ∈ ys, f x = f y → x = y) (h : xs.map f = ys.map f) : xs = ys := by
  induction xs generalizing ys with
  | nil => simpa [eq_comm] using h
  | cons x xs ih =>
    obtain ⟨y, ys, rfl, hhead, htail⟩ := List.map_eq_cons_iff.mp h.symm
    rw [hinj x List.mem_cons_self y List.mem_cons_self hhead.symm,
      ih (fun x hx y hy => hinj x (List.mem_cons_of_mem _ hx) y (List.mem_cons_of_mem _ hy))
        htail.symm]

def contents (entries : List (Location × Entry)) : List (List UInt8) :=
  entries.filterMap fun x => x.2.content?

/-- Equal listings are those of the same entries. -/
theorem shownOf_eq_of_listing_eq (h : ∀ x ∈ shownOf entries, IsListedBelow x.1)
    (h' : ∀ x ∈ shownOf entries', IsListedBelow x.1)
    (hdigest : Sha256.TellsApart (contents entries ++ contents entries'))
    (heq : listing Sha256.digest entries = listing Sha256.digest entries') :
    shownOf entries = shownOf entries' := by
  have hlines {entries : List (Location × Entry)} (h : ∀ x ∈ shownOf entries, IsListedBelow x.1) :
      ∀ line ∈ (shownOf entries).map fun x => (listingLine Sha256.digest x).toList,
        IsLine line :=
    List.forall_mem_map.mpr fun x hx => isLine_listingLine (List.mem_filter.mp hx).2 (h x hx)
  have hflatten := congrArg String.toList heq
  rw [toList_listing, toList_listing] at hflatten
  refine eq_of_map_eq (fun x hx y hy hline => ?_) (eq_of_flatten_eq (hlines h) (hlines h') hflatten)
  obtain ⟨hmem, hshown⟩ := List.mem_filter.mp hx
  obtain ⟨hmem', hshown'⟩ := List.mem_filter.mp hy
  refine eq_of_listingLine_eq hshown hshown' (h x hx) (h' y hy) (fun a ha b hb => ?_)
    (String.toList_inj.mp hline)
  exact hdigest a (List.mem_append_left _ (List.mem_filterMap.mpr ⟨x, hmem, ha⟩)) b
    (List.mem_append_right _ (List.mem_filterMap.mpr ⟨y, hmem', hb⟩))

end Entries

namespace FileTree

variable {t t' : FileTree} {loc loc' rel : Location} {output : String} {e : Entry}

/-- What a directory shows at a location below it; special files are not shown. -/
def shown? (t : FileTree) (loc rel : Location) : Option Entry :=
  (t.at? (loc ++ rel)).filter Entry.isShown

/-- What the digest of a directory is taken of. -/
def listingBytes (t : FileTree) (loc : Location) : List UInt8 :=
  Utf8.encode (listing Sha256.digest (t.below loc))

theorem mem_below_iff : (rel, e) ∈ t.below loc ↔ rel ≠ [] ∧ t.at? (loc ++ rel) = some e := by
  simp only [below, List.mem_filterMap, Prod.exists, Std.TreeMap.mem_toList_iff_getElem?_eq_some]
  constructor
  · rintro ⟨l, e', hentry, h⟩
    split_ifs at h with hbelow
    simp only [Bool.and_eq_true, List.isPrefixOf_iff_prefix, bne_iff_ne, ne_eq] at hbelow
    obtain ⟨⟨rest, rfl⟩, hne⟩ := hbelow
    obtain ⟨rfl, rfl⟩ : rest = rel ∧ e' = e := by simpa using h
    have hrest : rest ≠ [] := by simpa using hne
    exact ⟨hrest, by rwa [at?, if_neg (by simp [hrest])]⟩
  · rintro ⟨hne, hentry⟩
    rw [at?, if_neg (by simp [hne])] at hentry
    exact ⟨loc ++ rel, e, hentry, by simp [hne]⟩

theorem pairwise_below (t : FileTree) (loc : Location) :
    (t.below loc).Pairwise fun x y => compare x.1 y.1 = .lt := by
  have hcompare (a b : Location) : compare (loc ++ a) (loc ++ b) = compare a b := by
    induction loc with
    | nil => rfl
    | cons name loc ih => rw [List.cons_append, List.cons_append, List.compare_cons_cons, ih]; simp
  refine List.Pairwise.filterMap _ ?_ Std.TreeMap.ordered_keys_toList
  rintro ⟨l, e⟩ ⟨l', e'⟩ hlt x hx y hy
  dsimp only at hx hy
  split_ifs at hx hy with hbelow hbelow'
  simp only [Bool.and_eq_true, List.isPrefixOf_iff_prefix] at hbelow hbelow'
  obtain ⟨⟨a, rfl⟩, -⟩ := hbelow
  obtain ⟨⟨b, rfl⟩, -⟩ := hbelow'
  obtain rfl : (a, e) = x := by simpa using hx
  obtain rfl : (b, e') = y := by simpa using hy
  rwa [hcompare] at hlt

theorem mem_shownOf_below_iff :
    (rel, e) ∈ shownOf (t.below loc) ↔ rel ≠ [] ∧ t.shown? loc rel = some e := by
  rw [shownOf, List.mem_filter, mem_below_iff, shown?, Option.filter_eq_some_iff, and_assoc]

/-- Directories show the same when they have the same entries. -/
theorem shownOf_below_eq_iff (hdir : t.at? loc = some .dir) (hdir' : t'.at? loc' = some .dir) :
    shownOf (t.below loc) = shownOf (t'.below loc') ↔
      ∀ rel, t.shown? loc rel = t'.shown? loc' rel := by
  constructor
  · intro h rel
    by_cases hrel : rel = []
    · simp [hrel, shown?, hdir, hdir']
    · refine Option.ext fun e => ?_
      have hmem : (rel, e) ∈ shownOf (t.below loc) ↔ rel ≠ [] ∧ t.shown? loc rel = some e :=
        mem_shownOf_below_iff
      rw [h, mem_shownOf_below_iff] at hmem
      simpa [hrel] using hmem.symm
  · intro h
    refine eq_of_ascending ((t.pairwise_below loc).filter _)
      ((t'.pairwise_below loc').filter _) ?_
    rintro ⟨rel, e⟩
    exact mem_shownOf_below_iff.trans (h rel ▸ mem_shownOf_below_iff.symm)

/-- The entries that a directory shows have names that are those of a listing. -/
def HasListedNames (t : FileTree) (loc : Location) : Prop :=
  ∀ x ∈ shownOf (t.below loc), ∀ name ∈ x.1, IsListedName name

instance (t : FileTree) (loc : Location) : Decidable (t.HasListedNames loc) :=
  inferInstanceAs (Decidable (∀ x ∈ shownOf (t.below loc), ∀ name ∈ x.1, IsListedName name))

/-- What digests are taken of is the same exactly when the directories show the same. -/
theorem listingBytes_eq_iff (hdir : t.at? loc = some .dir) (hdir' : t'.at? loc' = some .dir)
    (hnames : t.HasListedNames loc) (hnames' : t'.HasListedNames loc')
    (hdigest : Sha256.TellsApart (contents (t.below loc) ++ contents (t'.below loc'))) :
    t.listingBytes loc = t'.listingBytes loc' ↔ ∀ rel, t.shown? loc rel = t'.shown? loc' rel := by
  have hbelow {t : FileTree} {loc : Location} (hnames : t.HasListedNames loc) :
      ∀ x ∈ shownOf (t.below loc), IsListedBelow x.1 :=
    fun x hx => ⟨(mem_shownOf_below_iff.mp hx).1, hnames x hx⟩
  rw [← shownOf_below_eq_iff hdir hdir', listingBytes, listingBytes, Utf8.encode_inj]
  refine ⟨shownOf_eq_of_listing_eq (hbelow hnames) (hbelow hnames') hdigest, fun h => ?_⟩
  refine String.toList_inj.mp ?_
  rw [toList_listing, toList_listing]
  exact congrArg (fun xs => (xs.map fun x => (listingLine Sha256.digest x).toList).flatten) h

/-- A directory that an output leads to, all of whose entries can be reached, with names that are
those of a listing. -/
structure Lists (t : FileTree) (output : String) (loc : Location) : Prop where
  found : t.find? ⟨output⟩ = some loc
  isDir : t.at? loc = some .dir
  names : t.HasListedNames loc
  reach : ∀ x ∈ t.below loc, outOfReach? ⟨output⟩ x = none

theorem Lists.digestDir (h : t.Lists output loc) :
    t.digestDir ⟨output⟩ = .ok (Sha256.digest (t.listingBytes loc)) := by
  have hreach : (t.below loc).findSome? (outOfReach? ⟨output⟩) = none :=
    List.findSome?_eq_none_iff.mpr h.reach
  simp only [FileTree.digestDir, h.found, hreach]
  rfl

end FileTree

namespace Snapshot

variable {t t' : FileTree} {output : String} {outputs : List String} {s s' : Snapshot}

/-- A snapshot has the digests of its outputs, whatever stands in it before: by induction on the
outputs, of which the later ones may repeat the first. -/
theorem of_foldlM_digestOf
    (h : outputs.foldlM (fun snapshot output =>
      (digestOf t output).map fun digest => ⟨snapshot.digests.insert output digest⟩) s = .ok s') :
    (∀ output ∈ outputs, ∃ digest?, digestOf t output = .ok digest? ∧
      s'.digests[output]? = some digest?) ∧
    ∀ output ∉ outputs, s'.digests[output]? = s.digests[output]? := by
  induction outputs generalizing s with
  | nil =>
    obtain rfl : s = s' := Except.ok.inj h
    simp
  | cons first outputs ih =>
    rw [List.foldlM_cons, bind_eq_ok_iff] at h
    obtain ⟨next, hnext, hrest⟩ := h
    obtain ⟨digest?, hdigest, rfl⟩ := except_map_eq_ok_iff.mp hnext
    obtain ⟨hlater, hkept⟩ := ih hrest
    constructor
    · intro output hmem
      by_cases hlaterMem : output ∈ outputs
      · exact hlater output hlaterMem
      · obtain rfl : output = first := (List.mem_cons.mp hmem).resolve_right hlaterMem
        exact ⟨digest?, hdigest, by rw [hkept output hlaterMem]; simp⟩
    · intro output hmem
      rw [List.mem_cons, not_or] at hmem
      rw [hkept output hmem.2, Std.TreeMap.getElem?_insert]
      simp [Ne.symm hmem.1]

theorem digestOf_of_lists {loc : Location} (h : t.Lists output loc) :
    digestOf t output = .ok (some (Sha256.digest (t.listingBytes loc))) := by
  have hentry : t.entry? ⟨output⟩ = some .dir := by
    rw [FileTree.entry?, h.found, Option.bind_eq_bind, Option.bind_some, h.isDir]
  simp only [digestOf, hentry, h.digestDir]
  rfl

theorem exists_capture {loc : Location} (h : t.Lists output loc) :
    ∃ s, capture t [output] = .ok s := by
  rw [capture, List.foldlM_cons, digestOf_of_lists h]
  exact ⟨_, rfl⟩

theorem get?_of_capture {loc : Location} (h : t.Lists output loc) (hmem : output ∈ outputs)
    (hcapture : capture t outputs = .ok s) :
    s.get? output = some (Sha256.digest (t.listingBytes loc)) := by
  obtain ⟨digest?, hdigest, hget⟩ := (of_foldlM_digestOf hcapture).1 output hmem
  obtain rfl := Except.ok.inj ((digestOf_of_lists h).symm.trans hdigest)
  rw [get?, hget]
  rfl

end Snapshot

namespace FileTree

/-- Where no name can be taken for more than itself, the digest of a directory identifies what it
shows: what is digested differs exactly when at some location one directory shows something else
than the other one, as long as the digests of the files and links in them are told apart. So
snapshots report a change exactly then, if the digests of the directories are told apart too. -/
theorem listing_identifies {t t' : FileTree} {output : String} {loc loc' : Location}
    (h : t.Lists output loc) (h' : t'.Lists output loc')
    (hdigest : Sha256.TellsApart (contents (t.below loc) ++ contents (t'.below loc'))) :
    t.digestDir ⟨output⟩ = .ok (Sha256.digest (t.listingBytes loc)) ∧
    t'.digestDir ⟨output⟩ = .ok (Sha256.digest (t'.listingBytes loc')) ∧
    (t.listingBytes loc ≠ t'.listingBytes loc' ↔
      ∃ rel, t.shown? loc rel ≠ t'.shown? loc' rel) ∧
    (∃ before later, Snapshot.capture t [output] = .ok before ∧
      Snapshot.capture t' [output] = .ok later) ∧
    ∀ outputs outputs' before later, Snapshot.capture t outputs = .ok before →
      Snapshot.capture t' outputs' = .ok later → output ∈ outputs → output ∈ outputs' →
      Sha256.TellsApart [t.listingBytes loc, t'.listingBytes loc'] →
      (before.changed later output = true ↔ ∃ rel, t.shown? loc rel ≠ t'.shown? loc' rel) := by
  have hbytes : t.listingBytes loc ≠ t'.listingBytes loc' ↔
      ∃ rel, t.shown? loc rel ≠ t'.shown? loc' rel := by
    rw [ne_eq, listingBytes_eq_iff h.isDir h'.isDir h.names h'.names hdigest, not_forall]
  obtain ⟨before, hbefore⟩ := Snapshot.exists_capture h
  obtain ⟨later, hlater⟩ := Snapshot.exists_capture h'
  refine ⟨h.digestDir, h'.digestDir, hbytes, ⟨before, later, hbefore, hlater⟩, ?_⟩
  intro outputs outputs' before later hbefore hlater hmem hmem' hapart
  have hsame : Sha256.digest (t.listingBytes loc) = Sha256.digest (t'.listingBytes loc') ↔
      t.listingBytes loc = t'.listingBytes loc' :=
    ⟨hapart _ (by simp) _ (by simp), congrArg _⟩
  rw [Snapshot.changed, Snapshot.get?_of_capture h hmem hbefore,
    Snapshot.get?_of_capture h' hmem' hlater, ← hbytes]
  simp [hsame]

/-- A tree with a directory of some entries. -/
def withDirectory (entries : List (String × Entry)) : FileTree :=
  entries.foldl (fun t x => t.put ["d", x.1] x.2) ((onlyWorkDir []).put ["d"] .dir)

/-- A directory with an entry, a special file, and a name of two lines. -/
def directoryWith (entry : Entry) : FileTree :=
  withDirectory [("a:b", entry), ("two\nlines", .dir), ("two\nFIFO", .special)]

/-- A link and a file that holds its target have the same digest and are told apart. -/
theorem listing_identifies_link :
    (directoryWith (.link "a")).Lists "d" ["d"] ∧ (directoryWith (.file [97])).Lists "d" ["d"] ∧
    (directoryWith (.link "a")).listingBytes ["d"] ≠
      (directoryWith (.file [97])).listingBytes ["d"] ∧
    ∃ before later, Snapshot.capture (directoryWith (.link "a")) ["d"] = .ok before ∧
      Snapshot.capture (directoryWith (.file [97])) ["d"] = .ok later ∧
      before.changed later "d" = true := by
  have hlink : (directoryWith (.link "a")).Lists "d" ["d"] := by
    constructor <;> decide +kernel
  have hfile : (directoryWith (.file [97])).Lists "d" ["d"] := by
    constructor <;> decide +kernel
  have hdiffers : ∃ rel, (directoryWith (.link "a")).shown? ["d"] rel ≠
      (directoryWith (.file [97])).shown? ["d"] rel := ⟨["a:b"], by decide +kernel⟩
  obtain ⟨-, -, hbytes, ⟨before, later, hbefore, hlater⟩, hchanged⟩ :=
    listing_identifies hlink hfile (by decide +kernel)
  exact ⟨hlink, hfile, hbytes.mpr hdiffers, before, later, hbefore, hlater,
    (hchanged ["d"] ["d"] before later hbefore hlater (by simp) (by simp) (by decide +kernel)).mpr
      hdiffers⟩

/-- Two directories and one with a name that is taken for both show different things, and the
listing is the same. -/
theorem listing_of_broken_name :
    let two := withDirectory [("a", .dir), ("b", .dir)]
    let one := withDirectory [("a\nD:b", .dir)]
    two.shown? ["d"] ["b"] = some .dir ∧ one.shown? ["d"] ["b"] = none ∧
    two.listingBytes ["d"] = one.listingBytes ["d"] ∧
    (do
      let before ← Snapshot.capture two ["d"]
      let later ← Snapshot.capture one ["d"]
      return before.changed later "d") = .ok false := by
  decide +kernel

end FileTree

end HybridBuild
