import RedisLite.Text

namespace RedisLite.Crc64

/-- `crc64_table`, constant for constant. -/
def table : List UInt64 := [
  0x0000000000000000, 0x7ad870c830358979, 0xf5b0e190606b12f2, 0x8f689158505e9b8b,
  0xc038e5739841b68f, 0xbae095bba8743ff6, 0x358804e3f82aa47d, 0x4f50742bc5870b04,
  0xab28ecb46814fe75, 0xd1f09c7c5821770e, 0x5e980d24087fec85, 0x24407decb04cfdfc,
  0x6b1009c7f05548f8, 0x11c8790fc060c183, 0x9ea0e857903e5a08, 0xe4789c8d00d62171,
  0x7d08ff3b88be6f81, 0x07d08ff3b88be6f8, 0x88b81eabef8c9a73, 0xf2606e63d8e0f40a,
  0xbd301a4810ffd90e, 0xc7e86a8020ca5077, 0x4880fbd87094cbfc, 0x32588b1040a14285,
  0xd620138fe0aa91f4, 0xacf86347d09f188d, 0x2390f21f80c18306, 0x594882d7b0f40a7f,
  0x1618f6fc78eb277b, 0x6cc0863448deae02, 0xe3a8176c18803589, 0x997067a428b5bcf0,
  0xfa11fe77117cdf02, 0x80c98ebf2149567b, 0x0fa11fe77117cdf0, 0x75796f2f41224489,
  0x3a291b04893d698d, 0x40f16bccb908e0f4, 0xcf99fa94e9567b7f, 0xb5418a5cd963f206,
  0x513912c379682177, 0x2be1620b495da80e, 0xa489f35319033385, 0xde51839b2936bafc,
  0x9101f7b0e12997f8, 0xebd98778d11c1e81, 0x64b116208142850a, 0x1e6966e8955e4873,
  0x8719014c99c2b083, 0xfdc17184a9f739fa, 0x72a9e0dcf9a9a271, 0x08719014c99c2b08,
  0x4721e43f0183060c, 0x3df994f731b68f75, 0xb29105af61e814fe, 0xc849756751dd9d87,
  0x2c31edf8f1d64ef6, 0x56e99d30c1e3c78f, 0xd9810c6891bd5c04, 0xa3597ca0a188d57d,
  0xec09088b6997f879, 0x96d1784359a27100, 0x19b9e91b09fcea8b, 0x636199d339c963f2,
  0xdf7adabd7a6e2d6f, 0xa5a2aa754a5ba416, 0x2aca3b2d1a053f9d, 0x50124be52a30b6e4,
  0x1f423fcee22f9be0, 0x65ba4f4eda9a1e99, 0xead2de5da9bf8612, 0x900aae6dc5bef06b,
  0x74523609127ad31a, 0x0e8a46c1224f5a63, 0x81e2d7997211c1e8, 0xfb3aa75142244891,
  0xb46ad37a8a3b6595, 0xceb2a3b2ba0eecec, 0x41da32eaea507767, 0x3b024222da65fe1e,
  0xa2722586f2d042ee, 0xd8aa554ec2e5cb97, 0x57c2c41692bb501c, 0x2d1ab4dea28ed965,
  0x624ac0f56a91f461, 0x1892b03d5aa47d18, 0x97fa21650afae693, 0xed2251ad3acf6fea,
  0x095ac9329ac4bc9b, 0x7382b9faaaf135e2, 0xfcea28a2faafae69, 0x8632586aca9a2710,
  0xc9622c4102850a14, 0xb3ba5c8932b0836d, 0x3cd2cdd162ee18e6, 0x4660bd3473dc479f,
  0x7930d90f22b64e36, 0x03e8a94d52b0094f, 0x8c80381590b15cc4, 0xf65848d8a0b727bd,
  0xb9083cf027e22db9, 0xc3d04c3017d6a4c0, 0x4cb85cd47bff2c4b, 0x36602c3c4b8fc532,
  0xd218b4e474ba1643, 0xa8c0c48265252e3a, 0x27a855db152b85b1, 0x5d7025a1e4b896c8,
  0x122051b14a0a4ccc, 0x68f821737a174eb5, 0xe790b07c53e3583e, 0x9d48c01048d66547,
  0x042990b37a56e6b7, 0x7ef1e09482b8d0ce, 0xf19971ccd2569545, 0x8b41014cf18e1c3c,
  0xc4115530b78fc138, 0xbec92571c72e4841, 0x31a1b4ccab16d3ca, 0x4b79c4049e72dab3,
  0xaf015c8b7b9d47c2, 0xd5d92c438ed466bb, 0x5ab1bd1b9ff4dd30, 0x2069cd0d5ee58549,
  0x6f39b9d4c406a84d, 0x15e1c94c1236f134, 0x9a89581442966abf, 0xe05128267293e3c6,
  0xbfc70d848af58397, 0xc51f7d4cbf010aee, 0x4a77ec105e87f165, 0x30af9c30deb2781c,
  0x7fffc821f2a05718, 0x0527b8193e23de61, 0x8a4f296b6e58a7ea, 0xf09759b3c8760693,
  0x14efc18abcf0d5e2, 0x6e37b1af56ea569b, 0xe15f20f706a67d10, 0x9b87508c36ba7469,
  0xd4d7249d4a88846d, 0xae0f54eb78ade914, 0x2167c5b3286e729f, 0x5bbfb5a92c9e7ae6,
  0xe2989b10c0e4bc16, 0x9840eb28d0d1b56f, 0x17287a8034db8ee4, 0x6df00af804c6e79d,
  0x22a07ec3c9f8ca99, 0x58780ee3c9cd43e0, 0xd7109f9b7fce0b6b, 0xade2efb334efc212,
  0x49ba77c9c8dc3963, 0x336207f8e8e3b01a, 0xbc0a96a09bb87b91, 0xc6d2e6803b99e2e8,
  0x89829291cba2cfec, 0xf35ae259fb81a695, 0x7c32733ba31d3d1e, 0x06ea030b93326d67,
  0x9f9a1643008bec97, 0xe542667a60bbe5ee, 0x6a2af73a30f05265, 0x10f287020a04db1c,
  0x5fa2f37e07b6db18, 0x2570839b50a95261, 0xaa1812e328e4c9ea, 0xd0c062d318d14093,
  0x34b8fa169c7b93e2, 0x4e608a019e4ee49b, 0xc1081bfc911e0710, 0xbbd06b379ce67e69,
  0xf4801f4cd84a476d, 0x8e586f24e858ce14, 0x0130fe7c7c698d9f, 0x7be88eb43c1a78e6,
  0x1cb9285deea7c957, 0x6661584c1ec2d02e, 0xe909c914a49b19a5, 0x93d1b93c25c8e4dc,
  0xdc81cd151a047fd8, 0xa659bd735b5e36a1, 0x29312c8b1bce832a, 0x53e95c3b2bf26c53,
  0xb791c4bae391e522, 0xcd49b4b4d39f6c5b, 0x422125ac8364a7d0, 0x38f955f36e1c49a9,
  0x77a921164736cead, 0x0d71513c274b45d4, 0x8219c064a38dc65f, 0xf8c1b0ecb5a1cf26,
  0x6151b1746f93cfd6, 0x1b89c18e5f91c6af, 0x94e150d613c97d24, 0xee3920ae83856e5d,
  0xa16954c7ac310459, 0xdbb124bfa38a8d20, 0x54d9b5b3ea2f56ab, 0x2e01c5b2c29b8dd2,
  0xca795d6d68fdf0a3, 0xb0a12d5bd8deb9da, 0x3fc9bc5448a19c51, 0x4511cc8c780a6228,
  0x0a41b80f6e77e22c, 0x7099c8c7e648cb55, 0xfff159bfb6211dde, 0x852929d732ae10a7,
  0x9321cfc7b24e8b98, 0xe9f9bf2ca25584e1, 0x66912e7a3af91f6a, 0x1c495e1a5a8f5613,
  0x53192a11a1507b17, 0x29c15acbb1a71c6e, 0xa6a9cb93f5b6d5e5, 0xdc71bb3bc588a49c,
  0x380923064a09a5ed, 0x42d153387a067694, 0xcdb9c2d82a78ed1f, 0xb761b2f03a4d9466,
  0xf831c60fc38b5762, 0x82e9b647d3ca341b, 0x0d812731271e1f90, 0x775957d97b6512e9,
  0xee29d4d93eba4819, 0x94f1a4b12e0d4160, 0x1b99358666b2faeb, 0x614165a856b83e92,
  0x2e111193e78d1196, 0x54c9610b4779aaef, 0xdba1f0531765a164, 0xa179803b276b281d,
  0x450118dca345cf6c, 0x3fd968e4937e0615, 0xb0b1f9bcf37c4d9e, 0xca698999c345d1e7,
  0x8539fdb2b2a1e3e3, 0xffe18d7ae28b2a9a, 0x70891c22d26fd111, 0x0a516c0242424968,
  0x7ce8f478e27ea919, 0x063084b0d250d060, 0x895815889d1c4beb, 0xf380650aad0c9292,
  0xbcd011c90cb0bf96, 0xc608618e0c80e6ef, 0x4960f0d05c1b4d64, 0x33b880f82c2f641d,
  0xd7c0186c5e3e9b6c, 0xad1868845c22e315, 0x2270f9dc44dbaa9e, 0x58a889149415b3e7,
  0x17f8fd3f7a45aee3, 0x6d208df74a7ecf9a, 0xe2481caf1ae06d11, 0x98906c972af13e68]

def update (crc : UInt64) (b : UInt8) : UInt64 :=
  table.getD (crc.toUInt8 ^^^ b).toNat 0 ^^^ (crc >>> 8)

def crc64 (data : Bytes) : UInt64 := data.foldl update 0

end RedisLite.Crc64
