import KeySubst.Proofs.Json.Written
import KeySubst.SourceMap.Document

/-!
# Source maps as documents

A source map is written as a row of tokens (`toJson_eq`) that stands for an object of its fields
(`tokens_writes`).
-/

namespace KeySubst.SourceMap

open Json (Token Legible Writes encode arrayTokens objectTokens separated separated_text)

def stringTokens (s : String) : List Token := [.string (encode s.toList)]

def stringValue (s : String) : Json.Value := .string (encode s.toList)

def optionalTokens : Option String → List Token
  | some s => stringTokens s
  | none => [.null]

def optionalValue : Option String → Json.Value
  | some s => stringValue s
  | none => .null

def laterTokens (m : SourceMap) : List (String × List Token) :=
  (m.file.map fun file => ("file", stringTokens file)).toList ++
    [("sources", arrayTokens (m.sources.map stringTokens)),
      ("sourcesContent", arrayTokens (m.sourcesContent.map optionalTokens)),
      ("names", arrayTokens (m.names.map stringTokens)),
      ("mappings", stringTokens m.mappings)]

def fieldTokens (m : SourceMap) : List (String × List Token) :=
  ("version", [.number (Nat.toDigits 10 m.version.toNat)]) :: m.laterTokens

def fieldValues (m : SourceMap) : List (String × Json.Value) :=
  ("version", .number (Nat.toDigits 10 m.version.toNat)) ::
    (m.file.map fun file => ("file", stringValue file)).toList ++
    [("sources", .array (m.sources.map stringValue)),
      ("sourcesContent", .array (m.sourcesContent.map optionalValue)),
      ("names", .array (m.names.map stringValue)),
      ("mappings", stringValue m.mappings)]

def encodeName {α : Type} (field : String × α) : List Char × α := (encode field.1.toList, field.2)

def tokens (m : SourceMap) : List Token := objectTokens (m.fieldTokens.map encodeName)

/-! ### Writing -/

theorem quote_toList (s : String) :
    (Json.quote s).toList = (stringTokens s).flatMap Token.text := by
  simp [Json.quote, stringTokens, Token.text]

theorem jsonOptional_toList (s : Option String) :
    (jsonOptional s).toList = (optionalTokens s).flatMap Token.text := by
  cases s with
  | none => rfl
  | some s => exact quote_toList s

theorem jsonArray_toList {α : Type} (text : α → String) (tokens : α → List Token)
    (spelled : ∀ x, (text x).toList = (tokens x).flatMap Token.text) (items : List α) :
    (jsonArray (items.map text)).toList = (arrayTokens (items.map tokens)).flatMap Token.text := by
  have parts : (items.map text).map String.toList =
      (items.map tokens).map fun part => part.flatMap Token.text := by
    simp only [List.map_map]
    exact List.map_congr_left fun x _ => spelled x
  rw [jsonArray, arrayTokens, String.toList_append, String.toList_append, String.toList_intercalate,
    parts, List.cons_append, List.flatMap_cons, List.flatMap_append, separated_text]
  rfl

theorem fieldTokens_text (m : SourceMap) :
    m.jsonFields.map (fun field => (field.1, field.2.toList)) =
      m.fieldTokens.map fun field => (field.1, field.2.flatMap Token.text) := by
  have file : (m.file.map fun file => ("file", Json.quote file)).toList.map
        (fun field => (field.1, field.2.toList)) =
      (m.file.map fun file => ("file", stringTokens file)).toList.map
        fun field => (field.1, field.2.flatMap Token.text) := by
    cases m.file with
    | none => rfl
    | some file => simp [quote_toList]
  simp only [jsonFields, fieldTokens, laterTokens, List.map_append, List.map_cons, file]
  simp [quote_toList, jsonArray_toList _ _ quote_toList,
    jsonArray_toList _ _ jsonOptional_toList, Token.text]

theorem memberTokens_text (field : String × List Token) :
    (Json.memberTokens (encodeName field)).flatMap Token.text =
      (Json.quote field.1).toList ++ ':' :: field.2.flatMap Token.text := by
  simp [encodeName, Json.memberTokens, quote_toList, stringTokens, Token.text]

theorem toJson_eq (m : SourceMap) : m.toJson = String.ofList (m.tokens.flatMap Token.text) := by
  have written : m.toJson = "\x7b" ++
      ",".intercalate (m.jsonFields.map fun field => Json.quote field.1 ++ ":" ++ field.2) ++
        "\x7d" := rfl
  have fields := congrArg
    (List.map fun field => (Json.quote field.1).toList ++ ':' :: field.2) (fieldTokens_text m)
  have parts : (m.jsonFields.map fun field => Json.quote field.1 ++ ":" ++ field.2).map
        String.toList =
      ((m.fieldTokens.map encodeName).map Json.memberTokens).map
        fun part => part.flatMap Token.text := by
    simp only [List.map_map, Function.comp_def, memberTokens_text] at fields ⊢
    simpa using fields
  rw [← String.toList_inj, String.toList_ofList, written, tokens, objectTokens,
    String.toList_append, String.toList_append, String.toList_intercalate, parts, List.cons_append,
    List.flatMap_cons, List.flatMap_append, separated_text]
  rfl

theorem stringTokens_writes (s : String) : Writes (stringTokens s) (stringValue s) := .string _

theorem optionalTokens_writes (s : Option String) :
    Writes (optionalTokens s) (optionalValue s) := by
  cases s with
  | none => exact .null
  | some s => exact .string _

theorem arrayTokens_writes {α : Type} {tokens : α → List Token} {value : α → Json.Value}
    (writes : ∀ x, Writes (tokens x) (value x)) (items : List α) :
    Writes (arrayTokens (items.map tokens)) (.array (items.map value)) := by
  apply Writes.array
  rw [List.forall₂_map_left_iff, List.forall₂_map_right_iff, List.forall₂_same]
  exact fun x _ => writes x

theorem tokens_writes (m : SourceMap) :
    Writes m.tokens (.object (m.fieldValues.map encodeName)) := by
  apply Writes.object
  rw [List.forall₂_map_left_iff, List.forall₂_map_right_iff]
  simp only [fieldTokens, laterTokens, fieldValues, encodeName]
  have sources := arrayTokens_writes stringTokens_writes m.sources
  have contents := arrayTokens_writes optionalTokens_writes m.sourcesContent
  have names := arrayTokens_writes stringTokens_writes m.names
  cases m.file with
  | none =>
    exact .cons ⟨rfl, .number _⟩ <| .cons ⟨rfl, sources⟩ <| .cons ⟨rfl, contents⟩ <|
      .cons ⟨rfl, names⟩ <| .cons ⟨rfl, .string _⟩ .nil
  | some file =>
    exact .cons ⟨rfl, .number _⟩ <| .cons ⟨rfl, .string _⟩ <| .cons ⟨rfl, sources⟩ <|
      .cons ⟨rfl, contents⟩ <| .cons ⟨rfl, names⟩ <| .cons ⟨rfl, .string _⟩ .nil

theorem stringTokens_plain (s : String) : ∀ t ∈ stringTokens s, t.Plain := by
  simp [stringTokens, Token.Plain.string]

theorem optionalTokens_plain (s : Option String) : ∀ t ∈ optionalTokens s, t.Plain := by
  cases s with
  | none => simp [optionalTokens, Token.Plain.null]
  | some s => exact stringTokens_plain s

theorem arrayTokens_plain {α : Type} {tokens : α → List Token}
    (plain : ∀ x, ∀ t ∈ tokens x, t.Plain) (items : List α) :
    ∀ t ∈ arrayTokens (items.map tokens), t.Plain := by
  have inner : ∀ t ∈ separated (items.map tokens), t.Plain := by
    apply Json.separated_plain
    intro part member
    obtain ⟨x, -, rfl⟩ := List.mem_map.1 member
    exact plain x
  intro t member
  rw [arrayTokens, List.cons_append, List.mem_cons, List.mem_append, List.mem_singleton] at member
  rcases member with rfl | member | rfl
  · exact .openArray
  · exact inner t member
  · exact .closeArray

theorem laterTokens_plain (m : SourceMap) :
    ∀ field ∈ m.laterTokens, ∀ t ∈ field.2, t.Plain := by
  intro field member
  rw [laterTokens, List.mem_append, Option.mem_toList] at member
  rcases member with file | member
  · obtain ⟨name, -, rfl⟩ := Option.map_eq_some_iff.1 file
    exact stringTokens_plain name
  · simp only [List.mem_cons, List.not_mem_nil, or_false] at member
    rcases member with rfl | rfl | rfl | rfl
    · exact arrayTokens_plain stringTokens_plain m.sources
    · exact arrayTokens_plain optionalTokens_plain m.sourcesContent
    · exact arrayTokens_plain stringTokens_plain m.names
    · exact stringTokens_plain m.mappings

theorem memberTokens_plain {field : String × List Token} (plain : ∀ t ∈ field.2, t.Plain) :
    ∀ t ∈ Json.memberTokens (encodeName field), t.Plain := by
  intro t member
  simp only [Json.memberTokens, encodeName, List.mem_cons] at member
  rcases member with rfl | rfl | member
  · exact .string _
  · exact .colon
  · exact plain t member

theorem tokens_legible (m : SourceMap) : Legible m.tokens := by
  obtain ⟨field, fields, later⟩ : ∃ field fields, m.laterTokens = field :: fields := by
    rw [laterTokens]
    cases m.file <;> exact ⟨_, _, rfl⟩
  have plain := laterTokens_plain m
  rw [later] at plain
  have parts_plain : ∀ part ∈ (field :: fields).map encodeName |>.map Json.memberTokens,
      ∀ t ∈ part, t.Plain := by
    intro part member
    rw [List.map_map] at member
    obtain ⟨other, listed, rfl⟩ := List.mem_map.1 member
    exact memberTokens_plain (plain other listed)
  have end_plain : ∀ t ∈ (((field :: fields).map encodeName).map Json.memberTokens).flatMap
      (.comma :: ·) ++ [.closeObject], t.Plain := by
    intro t member
    rcases List.mem_append.1 member with inner | last
    · exact Json.commas_plain parts_plain t inner
    · rw [List.mem_singleton.1 last]
      exact .closeObject
  rw [tokens, objectTokens, fieldTokens, later, List.map_cons, List.map_cons, List.cons_append,
    Json.separated_cons_append]
  exact .plain .openObject <| .plain (.string _) <| .plain .colon <| .number _ <|
    .of_plain end_plain

/-! ### Reading -/

theorem asString?_stringValue (s : String) : (stringValue s).asString? = some s := by
  rw [stringValue, Json.Value.asString?, Json.decode?_encode, Option.map_some, String.ofList_toList]

theorem asOptional?_optionalValue (s : Option String) :
    (optionalValue s).asOptional? Json.Value.asString? = some s := by
  cases s with
  | none => rfl
  | some s => exact congrArg (Option.map some) (asString?_stringValue s)

theorem asList?_array {α : Type} {item? : Json.Value → Option α} {value : α → Json.Value}
    (read : ∀ x, item? (value x) = some x) (items : List α) :
    (Json.Value.array (items.map value)).asList? item? = some items := by
  rw [Json.Value.asList?]
  induction items with
  | nil => rfl
  | cons x items ih => simp [read, ih]

theorem readVersion?_toDigits (version : UInt8) :
    readVersion? (.number (Nat.toDigits 10 version.toNat)) = some version := by
  have digits : (Nat.toDigits 10 version.toNat).all Char.isDigit = true :=
    List.all_eq_true.2 fun c member =>
      Nat.isDigit_of_mem_toDigits (by decide) (by decide) member
  have small : version.toNat < 256 := version.toNat_lt
  rw [readVersion?, Json.Value.asNat?, if_pos digits, Nat.ofDigitChars_ten_toDigits]
  simp [small]

theorem decodeNames (fields : List (String × Json.Value)) :
    (fields.map encodeName).mapM (fun (name, value) =>
      (Json.decode? name).map fun name => (String.ofList name, value)) = some fields := by
  induction fields with
  | nil => rfl
  | cons field fields ih => simp [encodeName, Json.decode?_encode, ih]

theorem field?_fieldValues (m : SourceMap) :
    field? m.fieldValues "version" = some (some (.number (Nat.toDigits 10 m.version.toNat))) ∧
    field? m.fieldValues "file" = some (m.file.map stringValue) ∧
    field? m.fieldValues "sources" = some (some (.array (m.sources.map stringValue))) ∧
    field? m.fieldValues "sourcesContent" =
      some (some (.array (m.sourcesContent.map optionalValue))) ∧
    field? m.fieldValues "names" = some (some (.array (m.names.map stringValue))) ∧
    field? m.fieldValues "mappings" = some (some (stringValue m.mappings)) := by
  simp only [field?, fieldValues]
  cases m.file <;> simp

theorem optional?_stringValue (file : Option String) :
    optional? (Json.Value.asOptional? Json.Value.asString?) none (file.map stringValue) =
      some file := by
  cases file with
  | none => rfl
  | some name => exact asOptional?_optionalValue (some name)

theorem ofFields?_values (m : SourceMap) :
    ofFields? (some (.number (Nat.toDigits 10 m.version.toNat))) (m.file.map stringValue)
      (some (.array (m.sources.map stringValue)))
      (some (.array (m.sourcesContent.map optionalValue)))
      (some (.array (m.names.map stringValue))) (some (stringValue m.mappings)) = some m := by
  have file := optional?_stringValue m.file
  have sources := asList?_array asString?_stringValue m.sources
  have contents := asList?_array asOptional?_optionalValue m.sourcesContent
  have names := asList?_array asString?_stringValue m.names
  rw [ofFields?, file]
  simp only [required?, optional?, Option.bind_eq_bind, Option.bind_some, readVersion?_toDigits,
    sources, contents, names, asString?_stringValue]
  rfl

theorem ofJson?_written (m : SourceMap) : ofJson? m.toJson = some m := by
  obtain ⟨version, file, sources, contents, names, mappings⟩ := field?_fieldValues m
  rw [toJson_eq, ofJson?, Json.parse?_written m.tokens_legible m.tokens_writes]
  simp only [decodeNames, Option.bind_eq_bind, Option.bind_some, version, file, sources, contents,
    names, mappings, ofFields?_values]

/-- Writing loses nothing: two source maps are written alike only if they are the same, and what was
read from any document is written as one that is read in the same way. -/
theorem ofJson?_toJson :
    (∀ m : SourceMap, ofJson? m.toJson = some m) ∧ Function.Injective toJson ∧
      ∀ (text : String) (m : SourceMap), ofJson? text = some m → ofJson? m.toJson = some m := by
  refine ⟨ofJson?_written, fun m n same => ?_, fun _ m _ => ofJson?_written m⟩
  have read := ofJson?_written m
  rw [same, ofJson?_written n] at read
  exact (Option.some.inj read).symm

/-- Fields out of order, one that is unknown, one that is missing, blanks and escapes. -/
def reordered : String :=
  "\x7b \"mappings\" : \"\\u0041;A\", \"x_extra\": [null, -1.5e3, \x7b\x7d],\n" ++
    "\"sourcesContent\":[null,\"\\ud83d\\ude00\\\"\"], \"sources\" : [\"a\\/b\", \"\"],\"version\":255\x7d"

theorem ofJson?_toJson_reordered :
    ∃ m : SourceMap, ofJson? reordered = some m ∧ m.sourcesContent = [none, some "😀\""] ∧
      m.toJson ≠ reordered ∧ ofJson? m.toJson = some m := by
  let m : SourceMap :=
    { version := 255
      file := none
      sources := ["a/b", ""]
      sourcesContent := [none, some "😀\""]
      names := []
      mappings := "A;A" }
  have read : ofJson? reordered = some m := by decide +kernel
  exact ⟨m, read, rfl, by decide +kernel, ofJson?_toJson.2.2 reordered m read⟩

end KeySubst.SourceMap
