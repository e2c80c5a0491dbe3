import Rebuild.Text.Split

namespace Rebuild.Support

def ofLines (lines : List String) : String :=
  Text.join "\n" lines ++ "\n"

def coreHeader : String := ofLines [
  "#ifndef PureScript_HH",
  "#define PureScript_HH",
  "",
  "#include <functional>",
  "#include <stdexcept>",
  "#include <string>",
  "#include <utility>",
  "#include <vector>",
  "",
  r#"#include "purescript_memory.hh""#,
  "",
  r"namespace PureScript {",
  "",
  "class any;",
  "",
  "using fn = std::function<any(const any&)>;",
  "using array = std::vector<any>;",
  "",
  r"class any {",
  "  public:",
  r"    enum class Tag { Unit, Integer, Double, Boolean, String, Array, Function };",
  "",
  r"    any() : tag(Tag::Unit) {}",
  r"    any(long v) : tag(Tag::Integer), i(v) {}",
  r"    any(int v) : tag(Tag::Integer), i(v) {}",
  r"    any(double v) : tag(Tag::Double), d(v) {}",
  r"    any(bool v) : tag(Tag::Boolean), b(v) {}",
  r"    any(const char* v) : tag(Tag::String), s(make_managed<std::string>(v)) {}",
  r"    any(std::string v) : tag(Tag::String), s(make_managed<std::string>(std::move(v))) {}",
  r"    any(array v) : tag(Tag::Array), a(make_managed<array>(std::move(v))) {}",
  r"    any(fn v) : tag(Tag::Function), f(make_managed<fn>(std::move(v))) {}",
  "",
  "    any operator()(const any& arg) const;",
  "",
  "    long as_int() const;",
  "    double as_double() const;",
  "    bool as_bool() const;",
  "    const std::string& as_string() const;",
  "    const array& as_array() const;",
  "",
  "    Tag tag;",
  "",
  "  private:",
  "    long i = 0;",
  "    double d = 0.0;",
  "    bool b = false;",
  "    managed<std::string> s;",
  "    managed<array> a;",
  "    managed<fn> f;",
  r"};",
  "",
  "[[noreturn]] void fail(const char* message);",
  "",
  r"} // namespace PureScript",
  "",
  "#endif // PureScript_HH"]

def coreImplementation : String := ofLines [
  r#"#include "PureScript.hh""#,
  "",
  r"namespace PureScript {",
  "",
  r"void fail(const char* message) {",
  "    throw std::runtime_error(message);",
  r"}",
  "",
  r"any any::operator()(const any& arg) const {",
  r"    if (tag != Tag::Function) {",
  r#"        fail("PureScript: value is not a function");"#,
  r"    }",
  "    return (*f)(arg);",
  r"}",
  "",
  r"long any::as_int() const {",
  r#"    if (tag != Tag::Integer) fail("PureScript: expected Int");"#,
  "    return i;",
  r"}",
  "",
  r"double any::as_double() const {",
  "    if (tag == Tag::Integer) return static_cast<double>(i);",
  r#"    if (tag != Tag::Double) fail("PureScript: expected Number");"#,
  "    return d;",
  r"}",
  "",
  r"bool any::as_bool() const {",
  r#"    if (tag != Tag::Boolean) fail("PureScript: expected Boolean");"#,
  "    return b;",
  r"}",
  "",
  r"const std::string& any::as_string() const {",
  r#"    if (tag != Tag::String) fail("PureScript: expected String");"#,
  "    return *s;",
  r"}",
  "",
  r"const array& any::as_array() const {",
  r#"    if (tag != Tag::Array) fail("PureScript: expected Array");"#,
  "    return *a;",
  r"}",
  "",
  r"} // namespace PureScript"]

def memoryHeader : String := ofLines [
  "#ifndef purescript_memory_HH",
  "#define purescript_memory_HH",
  "",
  "#include <memory>",
  "#include <utility>",
  "",
  r"namespace PureScript {",
  "",
  "template <typename T>",
  "using managed = std::shared_ptr<T>;",
  "",
  "template <typename T, typename... Args>",
  r"inline managed<T> make_managed(Args&&... args) {",
  "    return std::make_shared<T>(std::forward<Args>(args)...);",
  r"}",
  "",
  r"} // namespace PureScript",
  "",
  "#endif // purescript_memory_HH"]

def files : List (String × String) := [
  ("PureScript.hh", coreHeader),
  ("PureScript.cc", coreImplementation),
  ("purescript_memory.hh", memoryHeader)]

end Rebuild.Support
