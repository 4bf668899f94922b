import LineCensus.Registry.Basic

/-!
# The standard registry

The languages that the census knows from the start, and the file names that name a language
without an extension. A language of two token kinds keeps the order in which its tokens are
tried: where the line token begins every opener, the block comments never open.
-/
namespace LineCensus.Registry

/-- The languages of the standard registry, in the order of registration. -/
def standardLanguages : List Language :=
  ["c", "cpp", "h", "java", "js", "ts", "swift", "go", "rs", "kt", "m", "mm", "cs", "dart",
    "scss"].map (Language.ofTag .slashes) ++
  [Language.ofTag
      (.ofTokens ["#"]
        [("\x22\x22\x22", "\x22\x22\x22"), ("\x27\x27\x27", "\x27\x27\x27")]) "py",
    Language.ofTag .markup "html",
    Language.ofTag .markup "xml",
    Language.ofTag (.ofTokens ["//", "#"] [("/*", "*/")]) "php",
    Language.ofTag (.ofTokens ["\x27"] []) "vb",
    Language.ofTag (.ofTokens ["--"] [("/*", "*/")]) "sql",
    Language.ofTag (.ofTokens [] [("/*", "*/")]) "css"] ++
  ["sh", "bash", "zsh", "make", "cmake", "ps1", "yml", "yaml", "toml", "r", "jl"].map
    (Language.ofTag .hash) ++
  [Language.ofTag (.ofTokens ["REM"] []) "bat"] ++
  ["asm", "s", "ini"].map (Language.ofTag .semicolon) ++
  [Language.ofTag (.ofTokens [] []) "json",
    Language.ofTag (.ofTokens ["--"] [("--[[", "]]")]) "lua",
    Language.ofTag (.ofTokens ["(*"] [("(*", "*)")]) "ml"]

/-- The file names of the standard registry with the tags of their languages. -/
def standardFileNames : List (String × String) :=
  [("makefile", "make"), ("dockerfile", "sh"), ("cmakelists.txt", "cmake"), ("build", "sh"),
    ("configure", "sh"), ("install", "sh"), ("setup", "sh")]

/-- The registry that the census starts with. -/
def standard : Registry :=
  standardFileNames.foldl (fun registry entry =>
    registry.registerFileName entry.1.toList entry.2.toList) (ofLanguages standardLanguages)

end LineCensus.Registry
