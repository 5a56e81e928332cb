import Progression.Token.Lexer

/-! Lexemes on demand. A stream hands out the lexemes of a text one at a time, each with the
reports about it, and the end of the text again and again once all have been handed out. -/

namespace Progression

/-- The items not yet taken, and where the text ends. -/
structure TokenStream where
  items : List Lexed
  stop : Location
deriving DecidableEq

namespace TokenStream

/-- The stream of all lexemes of `source`. -/
def ofText (source : String) : TokenStream :=
  let (written, lexer) := transduce Lexer.step Lexer.first source.toList
  ⟨written ++ lexer.mode.close lexer.place.location, lexer.place.location⟩

/-- The lexeme that stands for the end of the text. -/
def finish (stream : TokenStream) : Lexeme := ⟨.finish, .point stream.stop⟩

/-- Takes the next lexeme, with the reports that stand before it. At the end this is the end of the
text, and the stream stays as it is. -/
def next (stream : TokenStream) : Log × Lexeme × TokenStream :=
  go stream.items
where
  /-- Looks for the first lexeme among `items`. -/
  go : List Lexed → Log × Lexeme × TokenStream
    | [] => ([], stream.finish, ⟨[], stream.stop⟩)
    | .report d :: items =>
        let (log, x, rest) := go items
        (d :: log, x, rest)
    | .lexeme x :: items => ([], x, ⟨items, stream.stop⟩)

/-- Takes `count` lexemes. -/
def take (stream : TokenStream) : Nat → Log × List Lexeme
  | 0 => ([], [])
  | count + 1 =>
      let (log, x, rest) := stream.next
      let (more, xs) := rest.take count
      (log ++ more, x :: xs)

/-- How many lexemes are left before the end of the text. -/
def size (stream : TokenStream) : Nat := (stream.items.filterMap Lexed.lexeme?).length

end TokenStream

/-- A lexed text is its stream followed by the end of the text. -/
theorem lex_eq_items_append (source : String) :
    lex source =
      (TokenStream.ofText source).items ++ [.lexeme (TokenStream.ofText source).finish] := by
  simp [lex, TokenStream.ofText, TokenStream.finish, Lexer.finish, Lexed.token, Span.point]

end Progression
