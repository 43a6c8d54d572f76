import ScriptMin.Source.Span
import ScriptMin.Operator

/-!
# Tokens

A token is a punctuator, a word of the language, a name, a literal or a piece of a template. The
tables give each punctuator and each word its spelling. The predicates on kinds say where a token
may be used as a name, and the last tables which operator a token stands for before and after an
operand.
-/

namespace ScriptMin

/-- The longer of an entry found before and one more that the text may start with. -/
def keepLonger {α : Type} (spelling : α → List Char) (text : List Char) (best : Option α) (a : α) :
    Option α :=
  if (spelling a).isPrefixOf text && best.all (fun b => (spelling b).length < (spelling a).length)
  then some a
  else best

/-- The entry of a table with the longest spelling among those that the text starts with. -/
def longestPrefix? {α : Type} (spelling : α → List Char) (table : List α) (text : List Char) :
    Option α :=
  table.foldl (keepLonger spelling text) none

/-- Punctuators, named by their characters. The two with a bracket after `?.` start an optional
access or call. -/
inductive Punctuator where
  | ampersand
  | ampersandEquals
  | doubleAmpersand
  | doubleAmpersandEquals
  | asterisk
  | asteriskEquals
  | doubleAsterisk
  | doubleAsteriskEquals
  | bar
  | barEquals
  | doubleBar
  | doubleBarEquals
  | openBrace
  | closeBrace
  | openBracket
  | closeBracket
  | openParenthesis
  | closeParenthesis
  | caret
  | caretEquals
  | less
  | lessEquals
  | doubleLess
  | doubleLessEquals
  | greater
  | greaterEquals
  | doubleGreater
  | doubleGreaterEquals
  | tripleGreater
  | tripleGreaterEquals
  | colon
  | comma
  | dot
  | ellipsis
  | semicolon
  | equals
  | doubleEquals
  | tripleEquals
  | arrow
  | exclamation
  | exclamationEquals
  | exclamationDoubleEquals
  | hyphen
  | hyphenEquals
  | doubleHyphen
  | percent
  | percentEquals
  | plus
  | plusEquals
  | doublePlus
  | question
  | questionDot
  | questionDotBracket
  | questionDotParenthesis
  | doubleQuestion
  | doubleQuestionEquals
  | slash
  | slashEquals
  | tilde
deriving DecidableEq, Repr

namespace Punctuator

/-- Every punctuator. -/
def all : List Punctuator :=
  [.ampersand, .ampersandEquals, .doubleAmpersand, .doubleAmpersandEquals, .asterisk,
   .asteriskEquals, .doubleAsterisk, .doubleAsteriskEquals, .bar, .barEquals, .doubleBar,
   .doubleBarEquals, .openBrace, .closeBrace, .openBracket, .closeBracket, .openParenthesis,
   .closeParenthesis, .caret, .caretEquals, .less, .lessEquals, .doubleLess, .doubleLessEquals,
   .greater, .greaterEquals, .doubleGreater, .doubleGreaterEquals, .tripleGreater,
   .tripleGreaterEquals, .colon, .comma, .dot, .ellipsis, .semicolon, .equals, .doubleEquals,
   .tripleEquals, .arrow, .exclamation, .exclamationEquals, .exclamationDoubleEquals, .hyphen,
   .hyphenEquals, .doubleHyphen, .percent, .percentEquals, .plus, .plusEquals, .doublePlus,
   .question, .questionDot, .questionDotBracket, .questionDotParenthesis, .doubleQuestion,
   .doubleQuestionEquals, .slash, .slashEquals, .tilde]

def spelling : Punctuator → List Char
  | .ampersand => ['&']
  | .ampersandEquals => ['&', '=']
  | .doubleAmpersand => ['&', '&']
  | .doubleAmpersandEquals => ['&', '&', '=']
  | .asterisk => ['*']
  | .asteriskEquals => ['*', '=']
  | .doubleAsterisk => ['*', '*']
  | .doubleAsteriskEquals => ['*', '*', '=']
  | .bar => ['|']
  | .barEquals => ['|', '=']
  | .doubleBar => ['|', '|']
  | .doubleBarEquals => ['|', '|', '=']
  | .openBrace => ['\x7b']
  | .closeBrace => ['\x7d']
  | .openBracket => ['[']
  | .closeBracket => [']']
  | .openParenthesis => ['(']
  | .closeParenthesis => [')']
  | .caret => ['^']
  | .caretEquals => ['^', '=']
  | .less => ['<']
  | .lessEquals => ['<', '=']
  | .doubleLess => ['<', '<']
  | .doubleLessEquals => ['<', '<', '=']
  | .greater => ['>']
  | .greaterEquals => ['>', '=']
  | .doubleGreater => ['>', '>']
  | .doubleGreaterEquals => ['>', '>', '=']
  | .tripleGreater => ['>', '>', '>']
  | .tripleGreaterEquals => ['>', '>', '>', '=']
  | .colon => [':']
  | .comma => [',']
  | .dot => ['.']
  | .ellipsis => ['.', '.', '.']
  | .semicolon => [';']
  | .equals => ['=']
  | .doubleEquals => ['=', '=']
  | .tripleEquals => ['=', '=', '=']
  | .arrow => ['=', '>']
  | .exclamation => ['!']
  | .exclamationEquals => ['!', '=']
  | .exclamationDoubleEquals => ['!', '=', '=']
  | .hyphen => ['-']
  | .hyphenEquals => ['-', '=']
  | .doubleHyphen => ['-', '-']
  | .percent => ['%']
  | .percentEquals => ['%', '=']
  | .plus => ['+']
  | .plusEquals => ['+', '=']
  | .doublePlus => ['+', '+']
  | .question => ['?']
  | .questionDot => ['?', '.']
  | .questionDotBracket => ['?', '.', '[']
  | .questionDotParenthesis => ['?', '.', '(']
  | .doubleQuestion => ['?', '?']
  | .doubleQuestionEquals => ['?', '?', '=']
  | .slash => ['/']
  | .slashEquals => ['/', '=']
  | .tilde => ['~']

/-- The longest punctuator that the text starts with. -/
def longest? (text : List Char) : Option Punctuator :=
  longestPrefix? spelling all text

end Punctuator

/-- Words with a meaning of their own. Some of them may still be used as names. -/
inductive Word where
  | asWord
  | asyncWord
  | awaitWord
  | breakWord
  | caseWord
  | catchWord
  | classWord
  | constWord
  | constructorWord
  | continueWord
  | debuggerWord
  | defaultWord
  | deleteWord
  | doWord
  | elseWord
  | exportWord
  | extendsWord
  | falseWord
  | finallyWord
  | forWord
  | fromWord
  | functionWord
  | getWord
  | ifWord
  | importWord
  | inWord
  | instanceOfWord
  | letWord
  | newWord
  | nullWord
  | ofWord
  | returnWord
  | setWord
  | staticWord
  | superWord
  | switchWord
  | thisWord
  | throwWord
  | trueWord
  | tryWord
  | typeOfWord
  | varWord
  | voidWord
  | whileWord
  | withWord
  | yieldWord
deriving DecidableEq, Repr

namespace Word

/-- Every word with its spelling. -/
def table : List (String × Word) :=
  [("as", .asWord), ("async", .asyncWord), ("await", .awaitWord), ("break", .breakWord),
   ("case", .caseWord), ("catch", .catchWord), ("class", .classWord), ("const", .constWord),
   ("constructor", .constructorWord), ("continue", .continueWord), ("debugger", .debuggerWord),
   ("default", .defaultWord), ("delete", .deleteWord), ("do", .doWord), ("else", .elseWord),
   ("export", .exportWord), ("extends", .extendsWord), ("false", .falseWord),
   ("finally", .finallyWord), ("for", .forWord), ("from", .fromWord), ("function", .functionWord),
   ("get", .getWord), ("if", .ifWord), ("import", .importWord), ("in", .inWord),
   ("instanceof", .instanceOfWord), ("let", .letWord), ("new", .newWord), ("null", .nullWord),
   ("of", .ofWord), ("return", .returnWord), ("set", .setWord), ("static", .staticWord),
   ("super", .superWord), ("switch", .switchWord), ("this", .thisWord), ("throw", .throwWord),
   ("true", .trueWord), ("try", .tryWord), ("typeof", .typeOfWord), ("var", .varWord),
   ("void", .voidWord), ("while", .whileWord), ("with", .withWord), ("yield", .yieldWord)]

def spelling (w : Word) : String :=
  ((table.find? (·.2 == w)).map (·.1)).getD ""

/-- The longest word that the text starts with, with its spelling. More of a name may follow it. -/
def longest? (text : List Char) : Option (String × Word) :=
  longestPrefix? (·.1.toList) table text

/-- The word with this spelling. -/
def ofString? (text : String) : Option Word :=
  table.lookup text

/-- The words that may name a variable, a function, a class or a label. Some contexts forbid
`yield` all the same. -/
def isBindable : Word → Bool
  | .asWord | .asyncWord | .awaitWord | .constructorWord | .fromWord | .getWord | .letWord
  | .ofWord | .setWord | .staticWord | .yieldWord => true
  | _ => false

end Word

/-- What a token is. A template is split at its substitutions, and `isLast` marks the piece that
ends it. -/
inductive Kind where
  | punctuator (p : Punctuator)
  | word (w : Word)
  | identifier
  | number
  | bigInt
  | string
  | regex
  | template (isLast : Bool)
  | privateName
  | endOfInput
deriving DecidableEq, Repr

namespace Kind

/-- Whether the token is a word of the table. -/
def isWord : Kind → Bool
  | .word _ => true
  | _ => false

/-- Tokens that can name a variable. -/
def isBindingName : Kind → Bool
  | .identifier => true
  | .word w => w.isBindable
  | _ => false

/-- Tokens that are spelled like an identifier. -/
def isName : Kind → Bool
  | .identifier | .word _ => true
  | _ => false

/-- Tokens that can be the name of a member access after a dot. -/
def isMemberName : Kind → Bool
  | .identifier | .word _ | .privateName => true
  | _ => false

/-- Tokens that can be a key without brackets. -/
def isPropertyName : Kind → Bool
  | .identifier | .word _ | .privateName | .string | .number | .bigInt => true
  | _ => false

def isTemplate : Kind → Bool
  | .template _ => true
  | _ => false

/-- The category of a token in diagnostics. -/
def category : Kind → String
  | .punctuator p =>
    match p with
    | .openBrace | .closeBrace | .openBracket | .closeBracket | .openParenthesis
    | .closeParenthesis | .colon | .comma | .dot | .ellipsis | .questionDot | .questionDotBracket
    | .questionDotParenthesis | .semicolon => "punc"
    | .arrow => "arrow"
    | _ => "operator"
  | .word w =>
    match w with
    | .inWord | .instanceOfWord | .typeOfWord | .newWord | .voidWord | .deleteWord => "operator"
    | .trueWord | .falseWord | .nullWord => "atom"
    | .asWord | .asyncWord | .awaitWord | .constructorWord | .fromWord | .getWord | .importWord
    | .ofWord | .setWord | .staticWord | .superWord | .thisWord | .yieldWord => "name"
    | _ => "keyword"
  | .identifier => "name"
  | .number => "num"
  | .bigInt => "big_int"
  | .string => "string"
  | .regex => "regexp"
  | .template _ => "template_string"
  | .privateName => "privatename"
  | .endOfInput => "eof"

/-- The operator that a token stands for after an operand. -/
def operator? : Kind → Option Operator
  | .word .inWord => some (.binary .inOperator)
  | .word .instanceOfWord => some (.binary .instanceOf)
  | .punctuator p =>
    match p with
    | .ampersand => some (.binary .bitwiseAnd)
    | .ampersandEquals => some (.assignment .bitwiseAnd)
    | .doubleAmpersand => some (.binary .logicalAnd)
    | .doubleAmpersandEquals => some (.assignment .logicalAnd)
    | .asterisk => some (.binary .multiplication)
    | .asteriskEquals => some (.assignment .multiplication)
    | .doubleAsterisk => some (.binary .exponentiation)
    | .doubleAsteriskEquals => some (.assignment .exponentiation)
    | .bar => some (.binary .bitwiseOr)
    | .barEquals => some (.assignment .bitwiseOr)
    | .doubleBar => some (.binary .logicalOr)
    | .doubleBarEquals => some (.assignment .logicalOr)
    | .openBracket => some (.index false)
    | .openParenthesis => some (.call false)
    | .caret => some (.binary .bitwiseXor)
    | .caretEquals => some (.assignment .bitwiseXor)
    | .less => some (.binary .lessThan)
    | .lessEquals => some (.binary .lessThanOrEqual)
    | .doubleLess => some (.binary .leftShift)
    | .doubleLessEquals => some (.assignment .leftShift)
    | .greater => some (.binary .greaterThan)
    | .greaterEquals => some (.binary .greaterThanOrEqual)
    | .doubleGreater => some (.binary .rightShift)
    | .doubleGreaterEquals => some (.assignment .rightShift)
    | .tripleGreater => some (.binary .unsignedRightShift)
    | .tripleGreaterEquals => some (.assignment .unsignedRightShift)
    | .comma => some .comma
    | .dot => some (.member false)
    | .equals => some (.assignment .assign)
    | .doubleEquals => some (.binary .equality)
    | .tripleEquals => some (.binary .strictEquality)
    | .exclamationEquals => some (.binary .inequality)
    | .exclamationDoubleEquals => some (.binary .strictInequality)
    | .hyphen => some (.binary .subtraction)
    | .hyphenEquals => some (.assignment .subtraction)
    | .percent => some (.binary .remainder)
    | .percentEquals => some (.assignment .remainder)
    | .plus => some (.binary .addition)
    | .plusEquals => some (.assignment .addition)
    | .question => some .conditional
    | .questionDot => some (.member true)
    | .questionDotBracket => some (.index true)
    | .questionDotParenthesis => some (.call true)
    | .doubleQuestion => some (.binary .nullishCoalescing)
    | .doubleQuestionEquals => some (.assignment .nullishCoalescing)
    | .slash => some (.binary .division)
    | .slashEquals => some (.assignment .division)
    | _ => none
  | _ => none

/-- The operator that a token stands for before an operand. Where `await`, `new` and `yield` are
operators depends on the context, so they are not among them. -/
def unaryOperator? : Kind → Option UnaryOperator
  | .punctuator .exclamation => some .logicalNot
  | .punctuator .hyphen => some .negation
  | .punctuator .doubleHyphen => some .decrement
  | .punctuator .plus => some .plus
  | .punctuator .doublePlus => some .increment
  | .punctuator .tilde => some .bitwiseNot
  | .word .deleteWord => some .delete
  | .word .typeOfWord => some .typeOf
  | .word .voidWord => some .void
  | _ => none

end Kind

/-- A token with its text and its place in the source. `afterNewline` says that a line ends between
the token before it and this one, be it inside a comment. -/
structure Token where
  kind : Kind
  text : String
  span : Source.Span
  afterNewline : Bool
deriving DecidableEq, Repr

end ScriptMin
