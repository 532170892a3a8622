import Mathlib.Data.List.TakeWhile
import EclipseOS.Brokerd.Bind

/-! # Bindings as text

A binding that was parsed is written as a text that parses to it. -/

namespace EclipseOS.Brokerd

open Foundation PolicyEval Cbor

/-! ## Characters of hosts -/

/-- A character a folded host pattern may have. -/
def isHostChar (char : Char) : Bool := labelChar char || char = '.' || char = '*'

theorem range_of_isHostChar {char : Char} (isHost : isHostChar char = true) :
    char.toNat = 42 ∨ char.toNat = 45 ∨ char.toNat = 46 ∨
      (48 ≤ char.toNat ∧ char.toNat ≤ 57) ∨ (97 ≤ char.toNat ∧ char.toNat ≤ 122) := by
  simp only [isHostChar, labelChar, Char.isDigit, ge_iff_le, Bool.or_eq_true,
    Bool.and_eq_true, decide_eq_true_eq, UInt32.le_iff_toNat_le] at isHost
  rcases isHost with (((lower | digit) | rfl) | rfl) | rfl
  · change (_ && _) = true at lower
    rw [Bool.and_eq_true, decide_eq_true_eq, decide_eq_true_eq] at lower
    exact .inr (.inr (.inr (.inr
      ⟨UInt32.le_iff_toNat_le.mp lower.1, UInt32.le_iff_toNat_le.mp lower.2⟩)))
  · exact .inr (.inr (.inr (.inl digit)))
  · decide
  · decide
  · decide

theorem toLower_of_isHostChar {char : Char} (isHost : isHostChar char = true) :
    char.toLower = char := by
  have range := range_of_isHostChar isHost
  have outside : ¬(char.val ≥ 'A'.val ∧ char.val ≤ 'Z'.val) := by
    rintro ⟨above, below⟩
    have above' : 65 ≤ char.toNat := above
    have below' : char.toNat ≤ 90 := below
    omega
  exact dif_neg outside

/-- A host character, or a digit after the colon, is none of the marks an authority or a
URL is cut at. -/
theorem apart_of_isHostChar {char : Char} (isHost : isHostChar char = true) {mark : Char}
    (isMark : mark ∈ [':', '/', '?', '#', '@', '\\', '[', ']']) : char ≠ mark := by
  rintro rfl
  have range := range_of_isHostChar isHost
  simp only [List.mem_cons, List.not_mem_nil, or_false] at isMark
  rcases isMark with rfl | rfl | rfl | rfl | rfl | rfl | rfl | rfl <;> revert range <;> decide

theorem isHostChar_of_isDigit {char : Char} (digit : char.isDigit = true) :
    isHostChar char = true := by
  simp [isHostChar, labelChar, digit]

theorem mem_splitOnP {α : Type} (separates : α → Bool) {items : List α} {item : α}
    (member : item ∈ items) :
    separates item = true ∨ ∃ part ∈ items.splitOnP separates, item ∈ part := by
  induction items with
  | nil => cases member
  | cons first items induction =>
    rw [List.splitOnP_cons_eq_if_modifyHead]
    split
    · rename_i isSeparator
      rcases List.mem_cons.mp member with rfl | later
      · exact .inl isSeparator
      · rcases induction later with separator | ⟨part, among, within⟩
        · exact .inl separator
        · exact .inr ⟨part, List.mem_cons_of_mem _ among, within⟩
    · cases parts : items.splitOnP separates with
      | nil => exact absurd parts (List.splitOnP_ne_nil _ _)
      | cons head rest =>
        rw [parts] at induction
        rw [List.modifyHead_cons]
        rcases List.mem_cons.mp member with rfl | later
        · exact .inr ⟨_, List.mem_cons_self, List.mem_cons_self⟩
        · rcases induction later with separator | ⟨part, among, within⟩
          · exact .inl separator
          · rcases List.mem_cons.mp among with rfl | among
            · exact .inr ⟨_, List.mem_cons_self, List.mem_cons_of_mem _ within⟩
            · exact .inr ⟨part, List.mem_cons_of_mem _ among, within⟩

theorem afterPrefix_eq_some {start : String} {text rest : List Char} :
    afterPrefix start text = some rest ↔ start.toList ++ rest = text :=
  List.isPrefixOf?_eq_some_iff_append_eq

/-! ## Hosts -/

section Hosts

variable {name host : List Char}

theorem hostOk_eq_some (ok : hostOk name true = some host) :
    host = lowercase name ∧ ∀ char ∈ host, isHostChar char = true := by
  unfold hostOk at ok
  simp only [if_true] at ok
  split at ok
  · cases ok
  · split at ok
    · rename_i labels
      cases ok
      have body : ∀ char ∈ (afterPrefix "*." (lowercase name)).getD (lowercase name),
          isHostChar char = true := by
        intro char member
        rcases mem_splitOnP (· = '.') member with dot | ⟨label, among, within⟩
        · simp [isHostChar, of_decide_eq_true dot]
        · have ok := List.all_eq_true.mp labels.1 label among
          simp only [labelOk, Bool.and_eq_true, List.all_eq_true] at ok
          simp [isHostChar, ok.2 char within]
      refine ⟨rfl, fun char member => ?_⟩
      cases stripped : afterPrefix "*." (lowercase name) with
      | none =>
        rw [stripped] at body
        exact body char member
      | some rest =>
        rw [stripped] at body
        rw [← afterPrefix_eq_some.mp stripped, List.mem_append] at member
        rcases member with start | inRest
        · have starts : "*.".toList.all isHostChar = true := by decide
          exact List.all_eq_true.mp starts char start
        · exact body char inRest
    · cases ok

theorem hostOk_hostOk (ok : hostOk name true = some host) : hostOk host true = some host := by
  rcases hostOk_eq_some ok with ⟨rfl, chars⟩
  have folded : lowercase (lowercase name) = lowercase name :=
    (List.map_congr_left fun char member =>
      toLower_of_isHostChar (chars char member)).trans (List.map_id' _)
  unfold hostOk at ok ⊢
  rwa [folded]

end Hosts

/-! ## Ports and authorities -/

section Authorities

variable {host : List Char} {port : UInt16}

theorem toString_toList (port : UInt16) : (toString port).toList = Nat.toDigits 10 port.toNat :=
  Nat.toList_repr

theorem isDigit_of_mem_toString {char : Char} (member : char ∈ (toString port).toList) :
    char.isDigit = true := by
  rw [toString_toList] at member
  exact Nat.isDigit_of_mem_toDigits (by decide) (by decide) member

theorem length_toString_le (port : UInt16) : (toString port).toList.length ≤ 5 := by
  have small := port.toNat_lt
  rw [toString_toList, Nat.length_toDigits_le_iff (by decide) (by decide)]
  omega

theorem parsePort_toString (port : UInt16) : parsePort (toString port).toList = some port := by
  have value : Nat.ofDigitChars 10 (toString port).toList 0 = port.toNat := by
    rw [toString_toList]
    exact Nat.ofDigitChars_ten_toDigits
  rw [parsePort, value]
  simp [port.toNat_lt]

theorem byteLen_of_ascii {chars : List Char} (ascii : ∀ char ∈ chars, isHostChar char = true) :
    byteLen chars = chars.length := by
  induction chars with
  | nil => rfl
  | cons char chars induction =>
    rw [List.forall_mem_cons] at ascii
    have range := range_of_isHostChar ascii.1
    have one : char.utf8Size = 1 := by
      rw [Char.utf8Size_eq_one_iff, UInt32.le_iff_toNat_le]
      show char.toNat ≤ 127
      omega
    have rest := induction ascii.2
    rw [byteLen] at rest ⊢
    rw [List.map_cons, List.sum_cons, one, rest, List.length_cons, Nat.add_comm]

theorem splitAuthority_written (chars : ∀ char ∈ host, isHostChar char = true) (named : port ≠ 0)
    (default : UInt16) :
    splitAuthority (host ++ ':' :: (toString port).toList) default = some (host, port) := by
  have digits : ∀ char ∈ (toString port).toList, isHostChar char = true := fun char member =>
    isHostChar_of_isDigit (isDigit_of_mem_toString member)
  have unmarked : (host ++ ':' :: (toString port).toList).any (fun char =>
      char = '@' ∨ char = '\\' ∨ char = '[' ∨ char = ']') = false := by
    rw [List.any_eq_false]
    intro char member marked
    simp only [decide_eq_true_eq] at marked
    have plain : isHostChar char = true ∨ char = ':' := by
      rcases List.mem_append.mp member with inHost | later
      · exact .inl (chars char inHost)
      · rcases List.mem_cons.mp later with colon | inPort
        · exact .inr colon
        · exact .inl (digits char inPort)
    rcases plain with isHost | rfl
    · rcases marked with mark | mark | mark | mark <;>
        exact apart_of_isHostChar isHost (by decide) mark
    · revert marked
      decide
  have apart : ∀ char ∈ host, decide (char ≠ ':') = true := fun char member =>
    decide_eq_true (apart_of_isHostChar (chars char member) (by decide))
  have cut : splitOnceAt ':' (host ++ ':' :: (toString port).toList) =
      some (host, (toString port).toList) := by
    rw [splitOnceAt, List.dropWhile_append_of_pos apart, List.takeWhile_append_of_pos apart]
    simp
  have wellFormed : ¬((toString port).toList = [] ∨ 5 < byteLen (toString port).toList ∨
      ¬(toString port).toList.all Char.isDigit) := by
    have few := length_toString_le port
    rw [byteLen_of_ascii digits]
    rintro (empty | long | other)
    · rw [toString_toList] at empty
      exact Nat.toDigits_ne_nil empty
    · omega
    · exact other (List.all_eq_true.mpr fun char => isDigit_of_mem_toString)
  rw [splitAuthority, unmarked, if_neg Bool.false_ne_true, cut]
  simp only [if_neg wellFormed, parsePort_toString, if_neg named]

theorem splitAuthority_eq_some {authority name : List Char} {default : UInt16}
    (named : default ≠ 0) (split : splitAuthority authority default = some (name, port)) :
    port ≠ 0 ∧ name.length ≤ authority.length := by
  unfold splitAuthority at split
  split_ifs at split
  split at split
  · cases split
    exact ⟨named, le_rfl⟩
  · rename_i found cut
    split_ifs at split
    split at split
    · cases split
    · split_ifs at split
      cases split
      refine ⟨by assumption, ?_⟩
      unfold splitOnceAt at cut
      split at cut
      · cases cut
        exact (List.takeWhile_prefix _).length_le
      · cases cut

end Authorities

/-! ## Bindings -/

section Urls

variable {url scheme authority path : List Char}

theorem defaultPort_eq_some {port : UInt16} (known : defaultPort scheme = some port) :
    (scheme = "https".toList ∨ scheme = "http".toList) ∧ port ≠ 0 := by
  unfold defaultPort at known
  split_ifs at known with https http
  · cases known
    exact ⟨.inl https, by decide⟩
  · cases known
    exact ⟨.inr http, by decide⟩

/-- A path starts with a slash and stops before a query. -/
def IsPath (path : List Char) : Prop :=
  (∃ rest, path = '/' :: rest) ∧ ∀ char ∈ path, char ≠ '?' ∧ char ≠ '#'

def beforeMark (char : Char) : Bool := decide (char ≠ '/' ∧ char ≠ '?' ∧ char ≠ '#')

def inPath (char : Char) : Bool := decide (char ≠ '?' ∧ char ≠ '#')

theorem splitUrl_eq_some (split : splitUrl url = some (scheme, authority, path)) :
    IsPath path ∧ authority.length + path.length ≤ url.length + 1 := by
  unfold splitUrl at split
  split at split
  · cases split
  · rename_i rest cut
    dsimp only at split
    have short := congrArg List.length (List.takeWhile_append_dropWhile (p := beforeMark) (l := rest))
    have inTail := (List.takeWhile_prefix inPath : _ <+: rest.dropWhile beforeMark).length_le
    have whole := congrArg List.length (afterPrefix_eq_some.mp cut)
    have dropped :=
      (List.dropWhile_suffix (fun char => decide (char ≠ ':')) : _ <:+ url).length_le
    rw [List.length_append] at whole short
    have least : 0 < "://".toList.length := by decide
    split_ifs at split with shaped empty
    · cases split
      refine ⟨⟨⟨[], rfl⟩, List.forall_mem_singleton.mpr (by decide)⟩, ?_⟩
      show (rest.takeWhile beforeMark).length + 1 ≤ _
      omega
    · cases split
      refine ⟨⟨?_, fun char member => ?_⟩, ?_⟩
      · show ∃ tail, (rest.dropWhile beforeMark).takeWhile inPath = '/' :: tail
        have filled : (rest.dropWhile beforeMark).takeWhile inPath ≠ [] := empty
        cases tail : rest.dropWhile beforeMark with
        | nil =>
          rw [tail] at filled
          exact absurd rfl filled
        | cons first tail =>
          rw [tail] at filled
          have marked : beforeMark first = false := by
            have isHead := List.head?_dropWhile_not beforeMark rest
            rw [tail] at isHead
            simpa using isHead
          by_cases kept : inPath first = true
          · rw [List.takeWhile_cons_of_pos kept]
            simp only [beforeMark, inPath, decide_eq_true_eq, decide_eq_false_iff_not] at kept marked
            have slash : first = '/' := by
              by_contra other
              exact marked ⟨other, kept⟩
            exact ⟨_, by rw [slash]⟩
          · rw [List.takeWhile_cons_of_neg kept] at filled
            exact absurd rfl filled
      · have kept : inPath char = true := List.mem_takeWhile_imp member
        exact of_decide_eq_true kept
      · show (rest.takeWhile beforeMark).length +
          ((rest.dropWhile beforeMark).takeWhile inPath).length ≤ _
        omega

theorem splitUrl_written {port : UInt16} (known : defaultPort scheme = some port)
    (unmarked : ∀ char ∈ authority, beforeMark char = true) (isPath : IsPath path) :
    splitUrl (scheme ++ ("://".toList ++ (authority ++ path))) = some (scheme, authority, path) := by
  rcases isPath with ⟨⟨rest, rfl⟩, inside⟩
  have spelled : scheme.all (fun char => decide (char ≠ ':')) = true ∧ scheme ≠ [] ∧
      scheme.all Char.isAlphanum ∧ lowercase scheme = scheme := by
    rcases (defaultPort_eq_some known).1 with rfl | rfl <;> decide
  rcases spelled with ⟨noColon, filled, alphanumeric, folded⟩
  have apart := List.all_eq_true.mp noColon
  have after : afterPrefix "://" ((scheme ++ ("://".toList ++ (authority ++ '/' :: rest))).dropWhile
      fun char => decide (char ≠ ':')) = some (authority ++ '/' :: rest) := by
    rw [List.dropWhile_append_of_pos apart]
    exact afterPrefix_eq_some.mpr rfl
  have start : (scheme ++ ("://".toList ++ (authority ++ '/' :: rest))).takeWhile
      (fun char => decide (char ≠ ':')) = scheme := by
    rw [List.takeWhile_append_of_pos apart]
    exact List.append_nil _
  have taken : (authority ++ '/' :: rest).takeWhile beforeMark = authority := by
    rw [List.takeWhile_append_of_pos unmarked]
    exact List.append_nil _
  have left : (authority ++ '/' :: rest).dropWhile beforeMark = '/' :: rest := by
    rw [List.dropWhile_append_of_pos unmarked]
    rfl
  have whole : ('/' :: rest).takeWhile inPath = '/' :: rest :=
    List.takeWhile_eq_self_iff.mpr fun char member => decide_eq_true (inside char member)
  have shaped : ¬(scheme = [] ∨ ¬scheme.all Char.isAlphanum) := by
    rintro (empty | other)
    · exact filled empty
    · exact other alphanumeric
  unfold splitUrl
  simp only [after, start, if_neg shaped]
  show some (lowercase scheme, (authority ++ '/' :: rest).takeWhile beforeMark,
    if ((authority ++ '/' :: rest).dropWhile beforeMark).takeWhile inPath = [] then ['/']
    else ((authority ++ '/' :: rest).dropWhile beforeMark).takeWhile inPath) = _
  rw [taken, left, whole, folded, if_neg (List.cons_ne_nil _ _)]

end Urls

namespace Binding

attribute [local simp] toText in
theorem parse_host {name : List Char} {port : UInt16}
    (ok : hostOk name true = some name) (named : port ≠ 0) :
    parse (host (String.ofList name) port).toText = some (host (String.ofList name) port) := by
  have chars := (hostOk_eq_some ok).2
  have after : afterPrefix "host:" (host (String.ofList name) port).toText.toList =
      some (name ++ ':' :: (toString port).toList) := by
    refine afterPrefix_eq_some.mpr ?_
    simp [toText]
  rw [parse, after]
  simp [splitAuthority_written chars named, ok]

theorem parse_url {scheme name path : List Char} {port default : UInt16}
    (known : defaultPort scheme = some default) (ok : hostOk name true = some name)
    (named : port ≠ 0) (isPath : IsPath path) :
    parse (url (String.ofList scheme) (String.ofList name) port (String.ofList path)).toText =
      some (url (String.ofList scheme) (String.ofList name) port (String.ofList path)) := by
  have chars := (hostOk_eq_some ok).2
  have after : afterPrefix "url:"
      (url (String.ofList scheme) (String.ofList name) port (String.ofList path)).toText.toList =
        some (scheme ++ ("://".toList ++ ((name ++ ':' :: (toString port).toList) ++ path))) := by
    refine afterPrefix_eq_some.mpr ?_
    simp [toText]
  have notHost : afterPrefix "host:"
      (url (String.ofList scheme) (String.ofList name) port (String.ofList path)).toText.toList =
        none := by
    rw [← afterPrefix_eq_some.mp after]
    rfl
  have unmarked : ∀ char ∈ name ++ ':' :: (toString port).toList, beforeMark char = true := by
    intro char member
    rcases List.mem_append.mp member with inHost | later
    · have apart := fun mark => @apart_of_isHostChar char (chars char inHost) mark
      exact decide_eq_true ⟨apart _ (by decide), apart _ (by decide), apart _ (by decide)⟩
    · rcases List.mem_cons.mp later with rfl | inPort
      · decide
      · have apart := fun mark =>
          @apart_of_isHostChar char (isHostChar_of_isDigit (isDigit_of_mem_toString inPort)) mark
        exact decide_eq_true ⟨apart _ (by decide), apart _ (by decide), apart _ (by decide)⟩
  rw [parse, notHost, after]
  simp only [Option.bind_eq_bind, splitUrl_written known unmarked isPath, Option.bind_some, known,
    splitAuthority_written chars named, ok]
  rfl

/-- A binding that was parsed is written as a text that parses to it, of about the length
it was parsed from. -/
theorem parse_toText {text : String} {binding : Binding} (parsed : parse text = some binding) :
    parse binding.toText = some binding ∧ binding.toText.length ≤ text.length + 24 := by
  have whole {start : String} {rest : List Char} (after : afterPrefix start text.toList = some rest) :
      start.length + rest.length = text.length := by
    have lengths := congrArg List.length (afterPrefix_eq_some.mp after)
    rwa [List.length_append, String.length_toList, String.length_toList] at lengths
  unfold parse at parsed
  split at parsed
  · rename_i authority isHost
    have long := whole isHost
    simp only [Option.bind_eq_bind, Option.bind_eq_some_iff] at parsed
    rcases parsed with ⟨⟨name, port⟩, split, host, ok, isBinding⟩
    cases isBinding
    rcases splitAuthority_eq_some (by decide) split with ⟨named, short⟩
    have few := length_toString_le port
    rw [String.length_toList] at few
    refine ⟨parse_host (hostOk_hostOk ok) named, ?_⟩
    have same : host.length = name.length := by
      rw [(hostOk_eq_some ok).1, lowercase, List.length_map]
    simp only [toText, String.length_append, String.length_ofList]
    have marks : "host:".length = 5 ∧ ":".length = 1 := by decide
    omega
  · split at parsed
    · rename_i absolute isUrl
      have long := whole isUrl
      simp only [Option.bind_eq_bind, Option.bind_eq_some_iff] at parsed
      rcases parsed with ⟨⟨scheme, authority, path⟩, cut, default, known, ⟨name, port⟩, split,
        host, ok, isBinding⟩
      cases isBinding
      rcases splitUrl_eq_some cut with ⟨isPath, within⟩
      rcases splitAuthority_eq_some (defaultPort_eq_some known).2 split with ⟨named, short⟩
      simp only at short
      have few := length_toString_le port
      rw [String.length_toList] at few
      refine ⟨parse_url known (hostOk_hostOk ok) named isPath, ?_⟩
      have same : host.length = name.length := by
        rw [(hostOk_eq_some ok).1, lowercase, List.length_map]
      have brief : scheme.length ≤ 5 := by
        rcases (defaultPort_eq_some known).1 with rfl | rfl <;> decide
      simp only [toText, String.length_append, String.length_ofList]
      have marks : "url:".length = 4 ∧ "://".length = 3 ∧ ":".length = 1 := by decide
      omega
    · split at parsed
      · rename_i appId isApp
        split_ifs at parsed with ok
        cases parsed
        have spelled : (app (String.ofList appId)).toText = text := by
          apply String.toList_injective
          rw [← afterPrefix_eq_some.mp isApp]
          simp [toText]
        rw [spelled]
        refine ⟨?_, Nat.le_add_right _ _⟩
        unfold parse
        simp_all
      · cases parsed

end Binding

end EclipseOS.Brokerd
