import Repoint.Bytes

/-!
# Help texts
-/

namespace Repoint

def versionText : Bytes := ascii "solpatch 0.1.0\n"

def helpText : Bytes := ascii <| String.join
  [ "Rewrite `$\x7bCMAKE_SOURCE_DIR\x7d` to `$\x7bCMAKE_SOURCE_DIR\x7d/solidity` in every CMakeLists.txt of the vendored solidity submodule\n",
    "\n",
    "Usage: solpatch [OPTIONS] [PATHS]...\n",
    "\n",
    "Arguments:\n",
    "  [PATHS]...  Trees to patch (defaults to <repo-root>/solidity)\n",
    "\n",
    "Options:\n",
    "      --repo-root <REPO_ROOT>  Repository checkout containing the solidity submodule\n",
    "      --follow-symlinks        Follow symlinks while walking paths\n",
    "  -n, --dry-run                Report what would change without writing\n",
    "      --check                  Fail if any file still needs patching (implies --dry-run)\n",
    "  -l, --list                   Print the path of every patched file\n",
    "      --json                   Emit the report as a single JSON array\n",
    "      --ndjson                 Emit the report as newline-delimited JSON\n",
    "  -h, --help                   Print help\n",
    "  -V, --version                Print version\n" ]

end Repoint
