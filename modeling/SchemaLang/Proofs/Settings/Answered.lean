/-
# Files that are answered by an error of their own

Whatever is wrong with a settings file is reported as an error in the settings, with two exceptions:
the bytes of the file are no text, or a scalar of the text looks like something it is not, as a date
in a thirteenth month does.  A missing file and a directory are errors in the settings.
-/
import SchemaLang.Proofs.Text.Utf8
import SchemaLang.Proofs.Yaml.Outline
import SchemaLang.Settings

namespace SchemaLang

open Text

namespace Settings

end Settings
end SchemaLang
